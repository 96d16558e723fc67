import TypedStubs.Proofs.Syntax.Balance
import TypedStubs.Proofs.Syntax.Reading

/-! # Pieces of a line

What a rule takes off a scanned line can be written somewhere else: behind another gap and before
anything that the rule cannot go on with, it is scanned into the same tokens and read as the same
thing (`Reads`).  Lines are put together from pieces and single tokens, from the end to the front.
-/
namespace TypedStubs.Syntax

open Rule

variable {α : Type} {depth : Nat} {ts us g : List Token} {gap cs cs' : List Char}

/-! ## Lines that were scanned -/

/-- Tokens at the front of what is left of a line when `depth` brackets are open. -/
def Scanned (depth : Nat) (ts : List Token) : Prop :=
  ∃ source line, lineTokens depth source = some line ∧ ts <+: line.tokens

/-- A line starts with its tokens as they are written. -/
theorem source_eq_written {source : List Char} {line : LineRest}
    (h : lineTokens depth source = some line) : ∃ n, source = written line.tokens ++ n := by
  generalize hts : line.tokens = ts
  induction ts generalizing depth source line with
  | nil => exact ⟨source, rfl⟩
  | cons t ts ih =>
    obtain ⟨c, u, rest, more, hchars, -, rfl, -, -, hmore, rfl⟩ := lineTokens_cons h hts
    obtain ⟨n, rfl⟩ := ih hmore (by simpa [LineRest.behind] using hts)
    exact ⟨n, by simp [hchars]⟩

namespace Scanned

/-- The first tokens alone. -/
theorem front (h : Scanned depth (us ++ ts)) : Scanned depth us := by
  obtain ⟨source, line, hline, hts⟩ := h
  exact ⟨source, line, hline, (List.prefix_append us ts).trans hts⟩

theorem tail {t : Token} (h : Scanned depth (t :: ts)) : Scanned (depthAfter depth t.toLexeme) ts := by
  obtain ⟨source, line, hline, left, hts⟩ := h
  obtain ⟨c, u, rest, more, -, -, -, -, -, hmore, rfl⟩ := lineTokens_cons hline hts.symm
  refine ⟨rest, more, hmore, left, ?_⟩
  simpa [LineRest.behind] using hts

/-- What is left behind some of the tokens. -/
theorem drop (h : Scanned depth (us ++ ts)) : Scanned (depthThrough depth us) ts := by
  induction us generalizing depth with
  | nil => exact h
  | cons u us ih => exact ih h.tail

theorem isGap {t : Token} (h : Scanned depth (t :: ts)) : IsGap depth t.before := by
  obtain ⟨source, line, hline, left, hts⟩ := h
  obtain ⟨c, u, rest, more, -, -, -, hgap, -⟩ := lineTokens_cons hline hts.symm
  exact isGap_of_lineGap hgap

/-- The first tokens of a line are scanned again behind any gap. -/
theorem scans (h : Scanned depth (us ++ ts)) (hne : us ≠ []) (hgap : IsGap depth gap) :
    Scans (Follows us) depth (gap ++ spanChars us) (fromGap gap us) := by
  obtain ⟨source, line, hline, left, hts⟩ := h
  obtain ⟨n, rfl⟩ := source_eq_written hline
  obtain ⟨t, us, rfl⟩ := List.exists_cons_of_ne_nil hne
  rw [List.append_assoc] at hts
  rw [← hts, written_append, List.append_assoc] at hline
  exact scans_fromGap hline hts.symm hgap

end Scanned

/-- A gap goes on with no token. -/
theorem IsGap.endsToken (h : IsGap depth gap) {x : List Char} (hx : EndsToken x) :
    EndsToken (gap ++ x) := by
  have hstop : StopsGap depth ')' := {
    not_gap := rfl
    newline := fun hc => by cases hc
    comment := fun hc => by cases hc
    not_backslash := by decide }
  exact endsToken_lineGap (h hstop []) hx

/-! ## Pieces -/

/-- A text that is scanned as the tokens `us` behind any gap, with `depth` brackets open.  It holds no
comment and no semicolon, and each bracket that it opens it closes. -/
structure Piece (depth : Nat) (cs : List Char) (us : List Token) : Prop where
  /-- There is a token in it. -/
  ne_nil : us ≠ []
  /-- It is the text of the tokens. -/
  chars : spanChars us = cs
  /-- It is scanned as the tokens. -/
  scans : ∀ ⦃gap⦄, IsGap depth gap → Scans EndsToken depth (gap ++ cs) (fromGap gap us)
  /-- As many brackets are open after it as before. -/
  netting : Netting 0 0 us

theorem depthThrough_fromGap (depth : Nat) (gap : List Char) (us : List Token) :
    depthThrough depth (fromGap gap us) = depthThrough depth us := by
  cases us <;> rfl

theorem follows_of_ordinary {n : List Char} (h : ∀ t ∈ us, t.isOrdinary = true) (hn : EndsToken n) :
    Follows us n := by
  refine ⟨hn, fun hc => ?_⟩
  obtain ⟨t, ht, hcomment⟩ := List.any_eq_true.1 hc
  have := h t ht
  simp [Lexeme.isOrdinary, hcomment] at this

/-- What a rule may take off a scanned line is a piece. -/
theorem Scanned.piece (h : Scanned depth (us ++ ts)) (hne : us ≠ []) (hnet : Netting 0 0 us) :
    Piece depth (spanChars us) us where
  ne_nil := hne
  chars := rfl
  scans := fun _ hgap => (h.scans hne hgap).mono fun _ => follows_of_ordinary hnet.ordinary
  netting := hnet

/-- A piece and what stands behind it. -/
theorem Piece.append {E : List Char → Prop} (h : Piece depth cs us) (hgap : IsGap depth gap)
    (h' : Scans E depth cs' ts) (hE : ∀ n, E n → EndsToken (cs' ++ n)) :
    Scans E depth (gap ++ (cs ++ cs')) (fromGap gap us ++ ts) := by
  have hlevel : depthThrough depth (fromGap gap us) = depth := by
    rw [depthThrough_fromGap]
    simpa using h.netting.level depth
  rw [← List.append_assoc]
  exact (h.scans hgap).append (hlevel.symm ▸ h') hE

/-! ## Single tokens -/

/-- A character that no gap, no line end and no comment starts with. -/
def startsToken (c : Char) : Bool := !(isGap c || c == '\n' || c == '#' || c == '\\')

theorem stopsGap_of_startsToken {c : Char} (h : startsToken c = true) : StopsGap depth c := by
  simp only [startsToken, Bool.not_eq_true', Bool.or_eq_false_iff, beq_eq_false_iff_ne] at h
  exact {
    not_gap := h.1.1.1
    newline := fun hc => absurd hc h.1.1.2
    comment := fun hc => absurd hc h.1.2
    not_backslash := h.2 }

/-- What starts with the first character of a token and is scanned as a line is one. -/
theorem Scans.isLine_of_start {c : Char} {u : List Char} (h : Scans EndsLine 0 cs ts)
    (hcs : cs = c :: u) (hc : startsToken c = true) (hlevel : depthThrough 0 ts = 0) : IsLine cs ts := by
  subst hcs
  refine h.isLine (stopsGap_of_startsToken hc) ?_ hlevel
  simp only [startsToken, Bool.not_eq_true', Bool.or_eq_false_iff, beq_eq_false_iff_ne] at hc
  exact hc.1.1.2

/-- A token that is scanned alone, and what stands behind it. -/
theorem scans_lexeme {E : List Char → Prop} {c : Char} {u : List Char} {kind : TokenKind}
    (hc : startsToken c = true) (hgap : IsGap depth gap)
    (h' : Scans E (depthAfter depth ⟨kind, c :: u⟩) cs' ts)
    (hread : ∀ n, E n → lexeme c (u ++ (cs' ++ n)) = some (kind, cs' ++ n)) :
    Scans E depth (gap ++ (c :: u ++ cs')) (⟨⟨kind, c :: u⟩, gap⟩ :: ts) := by
  intro n hn
  have hstop : StopsGap depth c := stopsGap_of_startsToken hc
  simp only [startsToken, Bool.not_eq_true', Bool.or_eq_false_iff, beq_eq_false_iff_ne] at hc
  have hboth : lexemeOrComment c (u ++ (cs' ++ n)) = some (kind, cs' ++ n) := by
    rw [lexemeOrComment, if_neg hc.1.2, hread n hn]
  have htoken := lineTokens_token (hgap hstop (u ++ (cs' ++ n))) hc.1.1.2 hboth
  simp only [List.append_assoc, List.cons_append] at htoken ⊢
  rw [htoken, h' n hn, Option.map_map]
  rfl

/-- A symbol behind a gap. -/
def sign (s : String) (gap : List Char) : Token := ⟨⟨.symbol, s.toList⟩, gap⟩

/-- A word behind a gap. -/
def spelled (w : String) (gap : List Char) : Token := ⟨⟨.word, w.toList⟩, gap⟩

@[simp] theorem sign_kind (s : String) (gap : List Char) : (sign s gap).kind = .symbol := rfl

@[simp] theorem sign_text (s : String) (gap : List Char) : (sign s gap).text = s :=
  String.ofList_toList

@[simp] theorem sign_isSymbol (s s' : String) (gap : List Char) :
    (sign s gap).isSymbol s' = (s == s') := by simp [sign, Lexeme.isSymbol, Lexeme.text]

@[simp] theorem sign_isWord (s w : String) (gap : List Char) : (sign s gap).isWord w = false := by
  simp [sign, Lexeme.isWord]

@[simp] theorem sign_isComment (s : String) (gap : List Char) : (sign s gap).isComment = false := rfl

@[simp] theorem spelled_kind (w : String) (gap : List Char) : (spelled w gap).kind = .word := rfl

@[simp] theorem spelled_text (w : String) (gap : List Char) : (spelled w gap).text = w :=
  String.ofList_toList

@[simp] theorem spelled_isWord (w w' : String) (gap : List Char) :
    (spelled w gap).isWord w' = (w == w') := by simp [spelled, Lexeme.isWord, Lexeme.text]

@[simp] theorem spelled_isSymbol (w s : String) (gap : List Char) :
    (spelled w gap).isSymbol s = false := by simp [spelled, Lexeme.isSymbol]

@[simp] theorem spelled_isComment (w : String) (gap : List Char) :
    (spelled w gap).isComment = false := rfl

/-- A text that is one token of the given kind before whatever goes on with no token. -/
def IsLexeme (kind : TokenKind) (cs : List Char) : Prop :=
  ∃ c u, cs = c :: u ∧ startsToken c = true ∧ lexeme c u = some (kind, [])

/-- Every token of a scanned line but a comment is one alone. -/
theorem Scanned.isLexeme {t : Token} (h : Scanned depth (t :: ts)) (hc : t.isComment = false) :
    IsLexeme t.kind t.chars := by
  obtain ⟨source, line, hline, left, hts⟩ := h
  obtain ⟨c, u, rest, more, hchars, hn, -, hgap, hread, -⟩ := lineTokens_cons hline hts.symm
  have hkind : t.kind ≠ .comment := by simpa [Lexeme.isComment] using hc
  have hcomment : c ≠ '#' := fun hc => hkind ((lexemeOrComment_comment hread).2 hc)
  have hb := lexemeOrComment_ne_backslash hread
  rw [lexemeOrComment, if_neg hcomment] at hread
  refine ⟨c, u, hchars, ?_, ?_⟩
  · simp [startsToken, (lineGap_stop hgap).1, hn, hcomment, hb]
  · have := lexeme_append (w := []) .nil (by simpa using hread)
    simpa using this

/-- A piece is scanned where it stands alone. -/
theorem Piece.scanned (h : Piece depth cs us) : Scanned depth (fromGap [] us) := by
  have hscan := h.scans (isGap_nil depth) [] .nil
  rw [List.append_nil, lineTokens_nil] at hscan
  refine ⟨_, _, hscan, [], ?_⟩
  simp [LineRest.behind]

/-- A piece starts with the first character of a token. -/
theorem Piece.start (h : Piece depth cs us) : ∃ c u, cs = c :: u ∧ startsToken c = true := by
  obtain ⟨t, ts, rfl⟩ := List.exists_cons_of_ne_nil h.ne_nil
  have hordinary := h.netting.ordinary t List.mem_cons_self
  simp only [Lexeme.isOrdinary, Bool.and_eq_true, Bool.not_eq_true'] at hordinary
  obtain ⟨c, u, hchars, hc, -⟩ := h.scanned.isLexeme (t := t.behind []) hordinary.1
  refine ⟨c, u ++ written ts, ?_, hc⟩
  have hspan : t.chars = c :: u := hchars
  rw [← h.chars, spanChars_cons, hspan]
  rfl

theorem Piece.level (h : Piece depth cs us) (gap : List Char) (d : Nat) :
    depthThrough d (fromGap gap us) = d := by
  rw [depthThrough_fromGap]
  simpa using h.netting.level d

theorem Piece.ordinary (h : Piece depth cs us) (gap : List Char) :
    ∀ t ∈ fromGap gap us, t.isOrdinary = true := by
  obtain ⟨t, ts, rfl⟩ := List.exists_cons_of_ne_nil h.ne_nil
  intro u hu
  rcases List.mem_cons.1 hu with rfl | hu
  · exact h.netting.ordinary t List.mem_cons_self
  · exact h.netting.ordinary u (List.mem_cons_of_mem _ hu)

/-- A token before what goes on with none. -/
theorem IsLexeme.append {E : List Char → Prop} {kind : TokenKind} (h : IsLexeme kind cs)
    (hgap : IsGap depth gap) (h' : Scans E (depthAfter depth ⟨kind, cs⟩) cs' ts)
    (hE : ∀ n, E n → EndsToken (cs' ++ n)) :
    Scans E depth (gap ++ (cs ++ cs')) (⟨⟨kind, cs⟩, gap⟩ :: ts) := by
  obtain ⟨c, u, rfl, hc, hread⟩ := h
  refine scans_lexeme hc hgap h' fun n hn => ?_
  have := lexeme_append (w := []) (n := []) (hE n hn) (by simpa using hread)
  simpa using this

/-- A symbol that no longer one starts with where it stands. -/
theorem find_symbol {c : Char} {n : List Char} (hc : [c] ∈ symbols)
    (h : ∀ s ∈ symbols, s.head? = some c → s = [c] ∨ ∃ d, s[1]? = some d ∧ n.head? ≠ some d) :
    symbols.find? (·.isPrefixOf (c :: n)) = some [c] := by
  cases hfind : symbols.find? (·.isPrefixOf (c :: n)) with
  | none =>
    have := List.find?_eq_none.1 hfind [c] hc
    simp at this
  | some s =>
    have hs := List.mem_of_find?_eq_some hfind
    have hfits : s.isPrefixOf (c :: n) = true :=
      List.find?_some (p := fun s : List Char => s.isPrefixOf (c :: n)) hfind
    obtain ⟨t, ht⟩ := List.isPrefixOf_iff_prefix.1 hfits
    obtain ⟨d, s, rfl⟩ := List.exists_cons_of_ne_nil (symbols_ne_nil s hs)
    obtain ⟨rfl, hn⟩ : d = c ∧ s ++ t = n := by simpa using ht
    rcases h _ hs rfl with heq | ⟨e, he, hne⟩
    · rw [heq]
    · refine absurd ?_ hne
      rw [← hn]
      cases s with
      | nil => simp at he
      | cons x s => simpa using he

/-- A symbol that stands alone before anything but what makes it longer. -/
theorem lexeme_sign {c : Char} {n : List Char} (hq : (c == '\'' || c == '"') = false)
    (hw : Text.startsWord c = false) (hd : (c.isDigit || c == '.') = false)
    (hfind : symbols.find? (·.isPrefixOf (c :: n)) = some [c]) :
    lexeme c n = some (.symbol, n) := by
  have hnumber : startsNumber c n = false := by
    rw [Bool.or_eq_false_iff] at hd
    simp [startsNumber, hd.1, hd.2]
  rw [lexeme, if_neg (by simp [hq]), if_neg (by simp [hw]), if_neg (by simp [hnumber]), hfind]
  rfl

theorem lexeme_open (n : List Char) : lexeme '(' n = some (.symbol, n) := by
  refine lexeme_sign (by decide) (by decide) (by decide) (find_symbol (by decide) fun s hs hc => ?_)
  have : ∀ s ∈ symbols, s.head? = some '(' → s = ['('] := by decide
  exact .inl (this s hs hc)

theorem lexeme_comma (n : List Char) : lexeme ',' n = some (.symbol, n) := by
  refine lexeme_sign (by decide) (by decide) (by decide) (find_symbol (by decide) fun s hs hc => ?_)
  have : ∀ s ∈ symbols, s.head? = some ',' → s = [','] := by decide
  exact .inl (this s hs hc)

theorem lexeme_at {n : List Char} (hn : n.head? ≠ some '=') : lexeme '@' n = some (.symbol, n) := by
  refine lexeme_sign (by decide) (by decide) (by decide) (find_symbol (by decide) fun s hs hc => ?_)
  have : ∀ s ∈ symbols, s.head? = some '@' → s = ['@'] ∨ s[1]? = some '=' := by decide
  exact (this s hs hc).imp_right fun h => ⟨'=', h, hn⟩

/-- A comma, and whatever stands behind it. -/
theorem scans_comma {E : List Char → Prop} (hgap : IsGap depth gap) (h' : Scans E depth cs' ts) :
    Scans E depth (gap ++ ([','] ++ cs')) (sign "," gap :: ts) :=
  scans_lexeme (u := []) (by decide) hgap h' fun _ _ => lexeme_comma _

/-- An opening parenthesis, and whatever stands behind it. -/
theorem scans_open {E : List Char → Prop} (hgap : IsGap depth gap) (h' : Scans E (depth + 1) cs' ts) :
    Scans E depth (gap ++ (['('] ++ cs')) (sign "(" gap :: ts) :=
  scans_lexeme (u := []) (by decide) hgap h' fun _ _ => lexeme_open _

/-! ## The words and signs of definitions -/

theorem isLexeme_async : IsLexeme .word "async".toList := ⟨'a', "sync".toList, rfl, rfl, by decide⟩

theorem isLexeme_class : IsLexeme .word "class".toList := ⟨'c', "lass".toList, rfl, rfl, by decide⟩

theorem isLexeme_def : IsLexeme .word "def".toList := ⟨'d', "ef".toList, rfl, rfl, by decide⟩

theorem isLexeme_colon : IsLexeme .symbol [':'] := ⟨':', [], rfl, rfl, by decide⟩

theorem isLexeme_equals : IsLexeme .symbol ['='] := ⟨'=', [], rfl, rfl, by decide⟩

theorem isLexeme_close : IsLexeme .symbol [')'] := ⟨')', [], rfl, rfl, by decide⟩

theorem isLexeme_arrow : IsLexeme .symbol "->".toList := ⟨'-', ['>'], rfl, rfl, by decide⟩

theorem isLexeme_dots : IsLexeme .symbol "...".toList := ⟨'.', "..".toList, rfl, rfl, by decide⟩

theorem endsToken_space (cs : List Char) : EndsToken (' ' :: cs) := .cons (by decide) cs

theorem endsToken_colon (cs : List Char) : EndsToken (':' :: cs) := .cons (by decide) cs

theorem endsToken_comma (cs : List Char) : EndsToken (',' :: cs) := .cons (by decide) cs

theorem endsToken_open (cs : List Char) : EndsToken ('(' :: cs) := .cons (by decide) cs

end TypedStubs.Syntax
