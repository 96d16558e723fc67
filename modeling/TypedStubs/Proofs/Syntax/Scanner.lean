import TypedStubs.Proofs.Syntax.Lexeme
import TypedStubs.Proofs.Syntax.Rule

/-! # Scanning piece by piece

A piece of a source is scanned into the same tokens wherever it stands, if as many brackets are open
before it and what follows goes on with no token (`Scans`).  Pieces are put together
(`Scans.append`), and every stretch of tokens of a line that was scanned is such a piece
(`scans_of_lineTokens`).
-/
namespace TypedStubs.Syntax

/-! ## Gaps -/

section Gaps

variable {depth : Nat} {inComment : Bool} {source gap cs cs' : List Char} {c : Char}

theorem isGap_mem_tokenEnds {c : Char} (h : isGap c = true) : c ∈ tokenEnds := by
  have hsub : ∀ c ∈ [' ', '\t', '\r', '\x0b', '\x0c', '\uFEFF', '\u2060', '\u200B'], c ∈ tokenEnds :=
    forall_mem_of_all (by decide)
  exact hsub c (List.contains_iff_mem.1 h)

/-- A gap goes on where a character means nothing between tokens. -/
theorem lineGap_gap (hc : isGap c = true) (cs : List Char) :
    lineGap depth false (c :: cs) =
      (c :: (lineGap depth false cs).1, (lineGap depth false cs).2) := by
  have hn : c ≠ '\n' := by rintro rfl; simp [isGap] at hc
  have hb : c ≠ '\\' := by rintro rfl; simp [isGap] at hc
  rw [lineGap]
  · simp [hc]
  · exact fun h => hn h
  · exact fun cs h _ => hb h
  · exact fun cs h _ => hb h

/-- In brackets a comment belongs to the gap. -/
theorem lineGap_comment (hd : depth ≠ 0) (cs : List Char) :
    lineGap depth false ('#' :: cs) =
      ('#' :: (lineGap depth true cs).1, (lineGap depth true cs).2) := by
  rw [lineGap]
  · simp [hd, isGap]
  · exact fun h => by cases h
  · exact fun cs h _ => by cases h
  · exact fun cs h _ => by cases h

/-- A gap ends where a token starts. -/
theorem lineGap_token (hc : isGap c = false) (hn : c ≠ '\n') (hb : c ≠ '\\')
    (hcomment : c = '#' → depth = 0) (cs : List Char) :
    lineGap depth false (c :: cs) = ([], c :: cs) := by
  rw [lineGap]
  · have : ¬ (c = '#' ∧ depth ≠ 0) := fun h => h.2 (hcomment h.1)
    simp [hc, this]
  · exact fun h => hn h
  · exact fun cs h _ => hb h
  · exact fun cs h _ => hb h

/-- A character that a gap stops at with `depth` brackets open. -/
structure StopsGap (depth : Nat) (c : Char) : Prop where
  /-- It is no gap itself. -/
  not_gap : isGap c = false
  /-- A line end stops a gap outside brackets. -/
  newline : c = '\n' → depth = 0
  /-- A comment is a token outside brackets. -/
  comment : c = '#' → depth = 0
  /-- A backslash may hide the line end behind it. -/
  not_backslash : c ≠ '\\'

theorem StopsGap.lineGap (h : StopsGap depth c) (cs : List Char) :
    lineGap depth false (c :: cs) = ([], c :: cs) := by
  by_cases hn : c = '\n'
  · rw [hn, Syntax.lineGap, if_pos (h.newline hn)]
  · exact lineGap_token h.not_gap hn h.not_backslash h.comment cs

/-- What stops a gap can be any character that does. -/
theorem lineGap_append_cons (h : lineGap depth inComment source = (gap, c :: cs)) {c' : Char}
    (hc' : StopsGap depth c') (cs' : List Char) :
    lineGap depth inComment (gap ++ c' :: cs') = (gap, c' :: cs') := by
  fun_induction lineGap depth inComment source generalizing gap with
  | case1 => simp at h
  | case2 d ds gap' rest heq ih =>
    obtain ⟨rfl, rfl⟩ : d :: gap' = gap ∧ rest = c :: cs := by simpa using h
    rw [List.cons_append, lineGap, ih heq]
  | case3 ds hd =>
    obtain ⟨rfl, -⟩ : gap = [] ∧ _ := by simpa [eq_comm] using h
    exact hc'.lineGap cs'
  | case4 ds hd gap' rest heq ih =>
    obtain ⟨rfl, rfl⟩ : '\n' :: gap' = gap ∧ rest = c :: cs := by simpa using h
    rw [List.cons_append, lineGap, if_neg hd, ih heq]
  | case5 ds gap' rest heq ih =>
    obtain ⟨rfl, rfl⟩ : '\\' :: '\n' :: gap' = gap ∧ rest = c :: cs := by simpa using h
    rw [List.cons_append, List.cons_append, lineGap, ih heq]
  | case6 ds gap' rest heq ih =>
    obtain ⟨rfl, rfl⟩ : '\\' :: '\r' :: '\n' :: gap' = gap ∧ rest = c :: cs := by simpa using h
    rw [List.cons_append, List.cons_append, List.cons_append, lineGap, ih heq]
  | case7 d ds hn hb1 hb2 hgap gap' rest heq ih =>
    obtain ⟨rfl, rfl⟩ : d :: gap' = gap ∧ rest = c :: cs := by simpa using h
    rw [List.cons_append, lineGap_gap hgap, ih heq]
  | case8 d ds hn hb1 hb2 hgap hd gap' rest heq ih =>
    obtain ⟨rfl, rfl⟩ : d :: gap' = gap ∧ rest = c :: cs := by simpa using h
    rw [List.cons_append, hd.1, lineGap_comment hd.2, ih heq]
  | case9 d ds hn hb1 hb2 hgap hd =>
    obtain ⟨rfl, -⟩ : gap = [] ∧ _ := by simpa [eq_comm] using h
    exact hc'.lineGap cs'

/-- A text that is a gap with `depth` brackets open, before whatever stops a gap. -/
def IsGap (depth : Nat) (gap : List Char) : Prop :=
  ∀ ⦃c⦄, StopsGap depth c → ∀ cs, lineGap depth false (gap ++ c :: cs) = (gap, c :: cs)

theorem isGap_nil (depth : Nat) : IsGap depth [] := fun _ hc cs => hc.lineGap cs

theorem isGap_space (depth : Nat) : IsGap depth [' '] := by
  intro c hc cs
  rw [List.singleton_append, lineGap_gap rfl, hc.lineGap]

theorem isGap_of_lineGap (h : lineGap depth false source = (gap, c :: cs)) : IsGap depth gap :=
  fun _ hc cs' => lineGap_append_cons h hc cs'

/-- A gap is found again before what follows it. -/
theorem lineGap_again {rest : List Char} (h : lineGap depth inComment source = (gap, rest)) :
    lineGap depth inComment (gap ++ rest) = (gap, rest) := by
  have := lineGap_append depth inComment source
  rw [h] at this
  rw [this, h]

/-- What stands behind a line end in a gap is a gap too. -/
theorem lineGap_behind_newline {x y : List Char}
    (h : lineGap depth inComment source = (x ++ '\n' :: y, c :: cs)) :
    lineGap depth false (y ++ c :: cs) = (y, c :: cs) := by
  generalize hgap : x ++ '\n' :: y = gap at h
  fun_induction lineGap depth inComment source generalizing x gap with
  | case1 => simp at h
  | case2 d ds gap' rest heq ih =>
    obtain ⟨rfl, rfl⟩ : d :: gap' = gap ∧ rest = c :: cs := by simpa using h
    cases x with
    | nil =>
      obtain ⟨rfl, rfl⟩ := List.cons.inj hgap
      exact lineGap_again (show lineGap depth false ds = (y, c :: cs) from heq)
    | cons e x => exact ih _ (List.cons.inj hgap).2 heq
  | case3 ds hd =>
    obtain ⟨rfl, -⟩ : gap = [] ∧ _ := by simpa [eq_comm] using h
    simp at hgap
  | case4 ds hd gap' rest heq ih =>
    obtain ⟨rfl, rfl⟩ : '\n' :: gap' = gap ∧ rest = c :: cs := by simpa using h
    cases x with
    | nil =>
      obtain rfl := (List.cons.inj hgap).2
      exact lineGap_again heq
    | cons e x => exact ih _ (List.cons.inj hgap).2 heq
  | case5 ds gap' rest heq ih =>
    obtain ⟨rfl, rfl⟩ : '\\' :: '\n' :: gap' = gap ∧ rest = c :: cs := by simpa using h
    cases x with
    | nil => simp at hgap
    | cons e x =>
      have hgap := (List.cons.inj hgap).2
      cases x with
      | nil =>
        obtain rfl := (List.cons.inj hgap).2
        exact lineGap_again heq
      | cons f x => exact ih _ (List.cons.inj hgap).2 heq
  | case6 ds gap' rest heq ih =>
    obtain ⟨rfl, rfl⟩ : '\\' :: '\r' :: '\n' :: gap' = gap ∧ rest = c :: cs := by simpa using h
    cases x with
    | nil => simp at hgap
    | cons e x =>
      have hgap := (List.cons.inj hgap).2
      cases x with
      | nil => simp at hgap
      | cons f x =>
        have hgap := (List.cons.inj hgap).2
        cases x with
        | nil =>
          obtain rfl := (List.cons.inj hgap).2
          exact lineGap_again heq
        | cons g x => exact ih _ (List.cons.inj hgap).2 heq
  | case7 d ds hn hb1 hb2 hgap' gap' rest heq ih =>
    obtain ⟨rfl, rfl⟩ : d :: gap' = gap ∧ rest = c :: cs := by simpa using h
    cases x with
    | nil => exact absurd (List.cons.inj hgap).1.symm hn
    | cons e x => exact ih _ (List.cons.inj hgap).2 heq
  | case8 d ds hn hb1 hb2 hgap' hd gap' rest heq ih =>
    obtain ⟨rfl, rfl⟩ : d :: gap' = gap ∧ rest = c :: cs := by simpa using h
    cases x with
    | nil => exact absurd (List.cons.inj hgap).1.symm hn
    | cons e x => exact ih _ (List.cons.inj hgap).2 heq
  | case9 d ds hn hb1 hb2 hgap' hd =>
    obtain ⟨rfl, -⟩ : gap = [] ∧ _ := by simpa [eq_comm] using h
    simp at hgap

theorem IsGap.behind_newline {x y : List Char} (h : IsGap depth (x ++ '\n' :: y)) : IsGap depth y := by
  intro c hc cs
  exact lineGap_behind_newline (h hc cs)

/-- In brackets a gap may have a line end before it. -/
theorem IsGap.newline (h : IsGap depth gap) (hd : depth ≠ 0) : IsGap depth ('\n' :: gap) := by
  intro c hc cs
  rw [List.cons_append, lineGap, if_neg hd, h hc cs]

theorem isGap_spaces (depth k : Nat) : IsGap depth (List.replicate k ' ') := by
  intro c hc cs
  induction k with
  | zero => exact hc.lineGap cs
  | succ k ih => rw [List.replicate_succ, List.cons_append, lineGap_gap rfl, ih]

/-- A gap starts with what goes on with no token. -/
theorem endsToken_lineGap (h : lineGap depth false source = (gap, cs)) {x : List Char}
    (hx : EndsToken x) : EndsToken (gap ++ x) := by
  cases gap with
  | nil => exact hx
  | cons g gap =>
    refine .cons ?_ _
    have hsource := lineGap_append depth false source
    rw [h] at hsource
    simp only [List.cons_append] at hsource
    rw [← hsource] at h
    refine Decidable.byContradiction fun hg => ?_
    -- a character that ends no token would start one here
    have hno : ∀ d, d ∈ tokenEnds → g ≠ d := fun d hd heq => hg (heq ▸ hd)
    have hstop : StopsGap depth g := {
      not_gap := Bool.eq_false_iff.2 fun hgap => hg (isGap_mem_tokenEnds hgap)
      newline := fun hc => absurd hc (hno _ (by decide))
      comment := fun hc => absurd hc (hno _ (by decide))
      not_backslash := hno _ (by decide) }
    rw [hstop.lineGap] at h
    simp at h

/-- A comment or a line end stops a gap only outside brackets. -/
theorem lineGap_stop (h : lineGap depth inComment source = (gap, c :: cs)) :
    isGap c = false ∧ (c = '\n' ∨ c = '#' → depth = 0) := by
  fun_induction lineGap depth inComment source generalizing gap with
  | case1 => simp at h
  | case2 _ _ _ _ heq ih | case4 _ _ _ _ heq ih | case5 _ _ _ heq ih | case6 _ _ _ heq ih
  | case7 _ _ _ _ _ _ _ _ heq ih | case8 _ _ _ _ _ _ _ _ _ heq ih =>
    simp only [Prod.mk.injEq] at h
    exact ih (heq.trans (by rw [h.2]))
  | case3 ds hd =>
    obtain ⟨-, rfl, -⟩ : gap = [] ∧ c = '\n' ∧ cs = ds := by simpa [eq_comm] using h
    exact ⟨rfl, fun _ => hd⟩
  | case9 d ds hn hb1 hb2 hgap hd =>
    obtain ⟨-, rfl, -⟩ : gap = [] ∧ c = d ∧ cs = ds := by simpa [eq_comm] using h
    refine ⟨by simpa using hgap, ?_⟩
    rintro (hc | hc)
    · exact absurd hc hn
    · simpa [hc] using hd

end Gaps

/-! ## Tokens -/

theorem lexeme_backslash (cs : List Char) : lexeme '\\' cs = none := by
  have hword : Text.startsWord '\\' = false := by decide
  have hnumber : startsNumber '\\' cs = false := rfl
  have hsymbol : ∀ s ∈ symbols, s.head? ≠ some '\\' := by decide
  rw [lexeme, if_neg (by decide), if_neg (by simp [hword]), if_neg (by simp [hnumber])]
  rw [List.find?_eq_none.2, Option.map_none]
  intro s hs hpre
  obtain ⟨t, ht⟩ := List.isPrefixOf_iff_prefix.1 hpre
  cases s with
  | nil => exact symbols_ne_nil _ hs rfl
  | cons d s =>
    obtain ⟨rfl, -⟩ : d = '\\' ∧ s ++ t = cs := by simpa using ht
    exact hsymbol _ hs rfl

theorem lexeme_kind {c : Char} {cs rest : List Char} {kind : TokenKind}
    (h : lexeme c cs = some (kind, rest)) : kind ≠ .comment := by
  rintro rfl
  unfold lexeme at h
  split at h
  · simp at h
  split at h
  · unfold afterWord at h
    split at h
    · split at h <;> simp at h
    · simp at h
  split at h
  · simp only [Option.some.injEq, Prod.mk.injEq] at h
    split at h <;> simp at h
  · simp at h

/-- How many brackets are open after tokens. -/
def depthThrough (depth : Nat) (ts : List Token) : Nat :=
  ts.foldl (fun d t => depthAfter d t.toLexeme) depth

@[simp] theorem depthThrough_nil (depth : Nat) : depthThrough depth [] = depth := rfl

@[simp] theorem depthThrough_cons (depth : Nat) (t : Token) (ts : List Token) :
    depthThrough depth (t :: ts) = depthThrough (depthAfter depth t.toLexeme) ts := rfl

@[simp] theorem depthThrough_append (depth : Nat) (ts us : List Token) :
    depthThrough depth (ts ++ us) = depthThrough (depthThrough depth ts) us := List.foldl_append

/-- More tokens in front of the rest of a line. -/
def LineRest.behind (ts : List Token) (l : LineRest) : LineRest := { l with tokens := ts ++ l.tokens }

@[simp] theorem LineRest.behind_nil (l : LineRest) : l.behind [] = l := rfl

@[simp] theorem LineRest.behind_append (ts us : List Token) (l : LineRest) :
    l.behind (ts ++ us) = (l.behind us).behind ts := by
  simp [LineRest.behind]

/-- One token of a line. -/
theorem lineTokens_token {depth : Nat} {gap u rest : List Char} {c : Char} {kind : TokenKind}
    (hgap : lineGap depth false (gap ++ c :: (u ++ rest)) = (gap, c :: (u ++ rest))) (hc : c ≠ '\n')
    (hread : lexemeOrComment c (u ++ rest) = some (kind, rest)) :
    lineTokens depth (gap ++ c :: (u ++ rest)) =
      (lineTokens (depthAfter depth ⟨kind, c :: u⟩) rest).map
        (·.behind [⟨⟨kind, c :: u⟩, gap⟩]) := by
  have htake : (c :: (u ++ rest)).take ((u ++ rest).length + 1 - rest.length) = c :: u := by
    have : (u ++ rest).length + 1 - rest.length = (c :: u).length := by
      simp only [List.length_append, List.length_cons]
      omega
    rw [this, ← List.cons_append, List.take_left]
  rw [lineTokens]
  split
  · next hnil => rw [hgap] at hnil; simp at hnil
  · next gap' c' cs' hcons =>
    rw [hgap] at hcons
    obtain ⟨rfl, rfl, rfl⟩ : gap = gap' ∧ c = c' ∧ u ++ rest = cs' := by simpa using hcons
    rw [if_neg hc, hread]
    have hle : rest.length ≤ (u ++ rest).length := by
      rw [List.length_append]
      omega
    simp only [htake, hle, if_true]
    cases lineTokens (depthAfter depth ⟨kind, c :: u⟩) rest <;> rfl

theorem lexeme_suffix {c : Char} {cs rest : List Char} {kind : TokenKind}
    (h : lexeme c cs = some (kind, rest)) : rest <:+ cs := by
  unfold lexeme at h
  split at h
  · simp only [Option.map_eq_some_iff, Prod.mk.injEq] at h
    obtain ⟨⟨embedded, rest⟩, hread, -, rfl⟩ := h
    obtain ⟨used, rfl, -⟩ := readStringLiteral_append hread (.inl rfl)
    exact List.suffix_append _ _
  split at h
  · obtain ⟨used, hused, -⟩ := afterWord_append (.inl rfl) (endsName_dropWhile cs) h
    exact (hused ▸ List.suffix_append used rest).trans (List.dropWhile_suffix _)
  split at h
  · simp only [Option.some.injEq, Prod.mk.injEq] at h
    rw [← h.2]
    exact List.drop_suffix _ _
  · simp only [Option.map_eq_some_iff, Prod.mk.injEq] at h
    obtain ⟨s, -, -, rfl⟩ := h
    exact List.drop_suffix _ _

theorem lexemeOrComment_suffix {c : Char} {cs rest : List Char} {kind : TokenKind}
    (h : lexemeOrComment c cs = some (kind, rest)) : rest <:+ cs := by
  unfold lexemeOrComment at h
  split at h
  · simp only [Option.some.injEq, Prod.mk.injEq] at h
    rw [← h.2]
    exact List.dropWhile_suffix _
  · exact lexeme_suffix h

/-- How the first token of a line was scanned. -/
theorem lineTokens_cons {depth : Nat} {source : List Char} {line : LineRest} {t : Token}
    {ts : List Token} (h : lineTokens depth source = some line) (ht : line.tokens = t :: ts) :
    ∃ c u rest more, t.chars = c :: u ∧ c ≠ '\n' ∧
      source = t.before ++ c :: (u ++ rest) ∧
      lineGap depth false source = (t.before, c :: (u ++ rest)) ∧
      lexemeOrComment c (u ++ rest) = some (t.kind, rest) ∧
      lineTokens (depthAfter depth t.toLexeme) rest = some more ∧ line = more.behind [t] := by
  rw [lineTokens] at h
  split at h
  · obtain rfl := Option.some.inj h
    simp at ht
  · next gap c cs hgap =>
    split at h
    · obtain rfl := Option.some.inj h
      simp at ht
    next hc =>
    split at h
    · simp at h
    next kind rest hread =>
    obtain ⟨u, rfl⟩ := lexemeOrComment_suffix hread
    split at h
    next hle =>
      have htake : (c :: (u ++ rest)).take ((u ++ rest).length + 1 - rest.length) = c :: u := by
        have : (u ++ rest).length + 1 - rest.length = (c :: u).length := by
          simp only [List.length_append, List.length_cons]
          omega
        rw [this, ← List.cons_append, List.take_left]
      simp only [htake] at h
      split at h
      · next more hmore =>
        obtain rfl := Option.some.inj h
        obtain ⟨rfl, rfl⟩ := List.cons.inj ht
        have hsource := lineGap_append depth false source
        rw [hgap] at hsource
        exact ⟨c, u, rest, more, rfl, hc, hsource.symm, hgap, hread, hmore, rfl⟩
      · simp at h
    · simp at h

/-! ## Pieces -/

/-- The characters of tokens, each with the gap before it. -/
def written (ts : List Token) : List Char := ts.flatMap fun t => t.before ++ t.chars

@[simp] theorem written_nil : written [] = [] := rfl

@[simp] theorem written_cons (t : Token) (ts : List Token) :
    written (t :: ts) = t.before ++ t.chars ++ written ts := rfl

@[simp] theorem written_append (ts us : List Token) : written (ts ++ us) = written ts ++ written us :=
  List.flatMap_append

theorem spanChars_cons (t : Token) (ts : List Token) : spanChars (t :: ts) = t.chars ++ written ts := rfl

theorem chars_subset_spanChars {t : Token} {ts : List Token} (h : t ∈ ts) : t.chars ⊆ spanChars ts := by
  cases ts with
  | nil => cases h
  | cons u ts =>
    intro c hc
    rcases List.mem_cons.1 h with rfl | h
    · exact List.mem_append_left _ hc
    · exact List.mem_append_right _ (List.mem_flatMap.2 ⟨t, h, List.mem_append_right _ hc⟩)

/-- A text that is empty or starts with a line end. -/
def EndsLine (cs : List Char) : Prop := ∀ c, cs.head? = some c → c = '\n'

theorem EndsLine.endsToken {cs : List Char} (h : EndsLine cs) : EndsToken cs := by
  intro c hc
  rw [h c hc]
  decide

/-- With `depth` brackets open, `cs` is scanned into the tokens `ts` before anything that satisfies
`E`. -/
def Scans (E : List Char → Prop) (depth : Nat) (cs : List Char) (ts : List Token) : Prop :=
  ∀ n, E n → lineTokens depth (cs ++ n) = (lineTokens (depthThrough depth ts) n).map (·.behind ts)

namespace Scans

variable {E E' : List Char → Prop} {depth : Nat} {cs cs' : List Char} {ts ts' : List Token}

theorem nil (E : List Char → Prop) (depth : Nat) : Scans E depth [] [] := by
  intro n hn
  simp

/-- One piece and then another one that the first one may stand before. -/
theorem append (h : Scans E depth cs ts) (h' : Scans E' (depthThrough depth ts) cs' ts')
    (hE : ∀ n, E' n → E (cs' ++ n)) : Scans E' depth (cs ++ cs') (ts ++ ts') := by
  intro n hn
  rw [List.append_assoc, h _ (hE n hn), h' n hn, depthThrough_append, Option.map_map]
  congr 1
  funext l
  simp

theorem mono (h : Scans E depth cs ts) (hE : ∀ n, E' n → E n) : Scans E' depth cs ts :=
  fun n hn => h n (hE n hn)

end Scans

theorem lexemeOrComment_ne_backslash {c : Char} {cs rest : List Char} {kind : TokenKind}
    (h : lexemeOrComment c cs = some (kind, rest)) : c ≠ '\\' := by
  rintro rfl
  simp [lexemeOrComment, lexeme_backslash] at h

theorem lexemeOrComment_comment {c : Char} {cs rest : List Char} {kind : TokenKind}
    (h : lexemeOrComment c cs = some (kind, rest)) : kind = .comment ↔ c = '#' := by
  unfold lexemeOrComment at h
  split at h
  · next hc => simp_all [eq_comm]
  · next hc => simp [hc, lexeme_kind h]

/-- A comment is cut in the same way before every line end. -/
theorem comment_append {u rest rest' : List Char}
    (h : (u ++ rest).dropWhile (· != '\n') = rest) (hrest : EndsLine rest') :
    (u ++ rest').dropWhile (· != '\n') = rest' := by
  have hsplit := List.takeWhile_append_dropWhile (l := u ++ rest) (p := (· != '\n'))
  rw [h] at hsplit
  have hu := List.append_cancel_right hsplit
  have hall : ∀ d ∈ u, (d != '\n') = true := by
    rw [← hu]
    exact List.all_eq_true.1 List.all_takeWhile
  refine (takeWhile_dropWhile_append hall fun d hd => ?_).2
  simp [hrest d hd]

theorem lineTokens_nil (depth : Nat) : lineTokens depth [] = some ⟨[], [], none⟩ := by
  rw [lineTokens]
  rfl

theorem lineTokens_newline (n : List Char) :
    lineTokens 0 ('\n' :: n) = some ⟨[], ['\n'], some n⟩ := by
  rw [lineTokens]
  rfl

/-- A line that has ended has no more tokens. -/
theorem lineTokens_endsLine {n : List Char} (h : EndsLine n) :
    ∃ line, lineTokens 0 n = some line ∧ line.tokens = [] := by
  cases n with
  | nil => exact ⟨_, lineTokens_nil 0, rfl⟩
  | cons c n =>
    obtain rfl := h c rfl
    exact ⟨_, lineTokens_newline n, rfl⟩

/-- Text that may follow tokens: it ends a token, and it ends the line if there is a comment among
them. -/
def Follows (ts : List Token) (n : List Char) : Prop :=
  EndsToken n ∧ (ts.any (·.isComment) → EndsLine n)

theorem Follows.tail {t : Token} {ts : List Token} {n : List Char} (h : Follows (t :: ts) n) :
    Follows ts n := ⟨h.1, fun hany => h.2 (by simp [hany])⟩

/-- The first token of a line that was scanned is scanned again behind any gap, and what follows the
tokens looked at may be another text. -/
theorem first_scanned_again {depth : Nat} {t : Token} {ts more : List Token} {n : List Char}
    {line : LineRest} (h : lineTokens depth (t.before ++ t.chars ++ (written ts ++ n)) = some line)
    (hts : line.tokens = t :: ts ++ more) :
    (∃ line', lineTokens (depthAfter depth t.toLexeme) (written ts ++ n) = some line' ∧
        line'.tokens = ts ++ more) ∧ IsGap depth t.before ∧
      ∀ {gap : List Char}, IsGap depth gap → ∀ {n'}, Follows (t :: ts) n' →
        lineTokens depth (gap ++ (t.chars ++ (written ts ++ n'))) =
          (lineTokens (depthAfter depth t.toLexeme) (written ts ++ n')).map (·.behind [t.behind gap]) := by
  obtain ⟨c, u, rest, line', hchars, hc, hsource, hgap, hread, hmore, rfl⟩ := lineTokens_cons h hts
  have hts' : line'.tokens = ts ++ more := by simpa [LineRest.behind] using hts
  obtain rfl : rest = written ts ++ n := by
    rw [hchars] at hsource
    simpa [eq_comm] using hsource
  refine ⟨⟨line', hmore, hts'⟩, isGap_of_lineGap hgap, fun {gap} hgap' n' hn => ?_⟩
  have hread' : lexemeOrComment c (u ++ (written ts ++ n')) = some (t.kind, written ts ++ n') := by
    unfold lexemeOrComment at hread ⊢
    split at hread
    · next hcomment =>
      -- a comment is the last token of its line
      obtain ⟨hkind, hrest⟩ := Prod.mk.inj (Option.some.inj hread)
      have hends : EndsLine (written ts ++ n) := by
        intro d hd
        have := List.head?_dropWhile_not (· != '\n') (u ++ (written ts ++ n))
        rw [hrest, hd] at this
        simpa using this
      have hdepth : depthAfter depth t.toLexeme = 0 := by
        simp [depthAfter, ← hkind, (lineGap_stop hgap).2 (.inr hcomment)]
      obtain ⟨line'', hline'', hnone⟩ := lineTokens_endsLine hends
      rw [hdepth, hline''] at hmore
      obtain rfl := Option.some.inj hmore
      obtain ⟨rfl, -⟩ := List.append_eq_nil_iff.1 (hts'.symm.trans hnone)
      have hn' : EndsLine n' := hn.2 (by simp [Lexeme.isComment, ← hkind])
      rw [if_pos hcomment, hkind]
      simp only [written_nil, List.nil_append] at hrest ⊢
      rw [comment_append hrest hn']
    · next hcomment =>
      rw [if_neg hcomment]
      exact lexeme_append hn.1 hread
  have hstop : StopsGap depth c := {
    not_gap := (lineGap_stop hgap).1
    newline := fun hn => absurd hn hc
    comment := fun hcomment => (lineGap_stop hgap).2 (.inr hcomment)
    not_backslash := lexemeOrComment_ne_backslash hread }
  have hl : (⟨t.kind, c :: u⟩ : Lexeme) = t.toLexeme := by rw [← hchars]
  rw [hchars, List.cons_append, lineTokens_token (hgap' hstop _) hc hread', hl]
  rfl

/-- **Tokens at the front of a line that was scanned are scanned again** wherever they stand. -/
theorem scans_of_lineTokens {depth : Nat} {ts more : List Token} {n : List Char} {line : LineRest}
    (h : lineTokens depth (written ts ++ n) = some line) (hts : line.tokens = ts ++ more) :
    Scans (Follows ts) depth (written ts) ts := by
  induction ts generalizing depth line with
  | nil => exact .nil _ _
  | cons t ts ih =>
    intro n' hn
    simp only [written_cons, List.append_assoc] at h ⊢
    rw [← List.append_assoc] at h
    obtain ⟨⟨line', hmore, hts'⟩, hgap, hfirst⟩ := first_scanned_again h hts
    rw [hfirst hgap hn, ih hmore hts' n' hn.tail, Option.map_map]
    rfl

/-- Tokens with another gap before the first of them. -/
def fromGap (gap : List Char) : List Token → List Token
  | [] => []
  | t :: ts => t.behind gap :: ts

/-- Tokens at the front of a line that was scanned are scanned again behind any gap. -/
theorem scans_fromGap {depth : Nat} {t : Token} {ts more : List Token} {n gap : List Char}
    {line : LineRest} (h : lineTokens depth (written (t :: ts) ++ n) = some line)
    (hts : line.tokens = t :: ts ++ more) (hgap : IsGap depth gap) :
    Scans (Follows (t :: ts)) depth (gap ++ spanChars (t :: ts)) (fromGap gap (t :: ts)) := by
  intro n' hn
  simp only [written_cons, List.append_assoc, spanChars_cons] at h ⊢
  rw [← List.append_assoc] at h
  obtain ⟨⟨line', hmore, hts'⟩, -, hfirst⟩ := first_scanned_again h hts
  rw [hfirst hgap hn, scans_of_lineTokens hmore hts' n' hn.tail, Option.map_map]
  rfl

/-! ## Lines -/

/-- A source is scanned into lines before anything else. -/
def ScansLines (cs : List Char) (lines : List Line) : Prop :=
  ∀ rest, scanLines (cs ++ rest) = (scanLines rest).map (lines ++ ·)

/-- The rest of a line that starts with `cs` is its tokens `ts`, before any line end. -/
def IsLine (cs : List Char) (ts : List Token) : Prop :=
  (∃ c u, cs = c :: u ∧ StopsGap 0 c ∧ c ≠ '\n') ∧
    ∀ rest, lineTokens 0 (cs ++ '\n' :: rest) = some ⟨ts, ['\n'], some rest⟩

theorem Scans.isLine {c : Char} {u : List Char} {ts : List Token} (h : Scans EndsLine 0 (c :: u) ts)
    (hc : StopsGap 0 c) (hn : c ≠ '\n') (hlevel : depthThrough 0 ts = 0) : IsLine (c :: u) ts := by
  refine ⟨⟨c, u, rfl, hc, hn⟩, fun rest => ?_⟩
  have hend : EndsLine ('\n' :: rest) := fun d hd => by simpa [eq_comm] using hd
  rw [h _ hend, hlevel, lineTokens_newline]
  simp [LineRest.behind]

theorem lineStart_spaces (k indent column : Nat) {c : Char} (hc : StopsGap 0 c) (hn : c ≠ '\n')
    (cs : List Char) :
    lineStart indent column (List.replicate k ' ' ++ c :: cs) =
      ⟨indent + k, column + k, List.replicate k ' ', c :: cs⟩ := by
  induction k generalizing indent column with
  | zero =>
    rw [List.replicate_zero, List.nil_append, lineStart]
    · rw [hc.not_gap]
      rfl
    · exact fun h => hn h
    · exact fun _ h => absurd h hc.not_backslash
    · exact fun _ h => absurd h hc.not_backslash
  | succ k ih =>
    have hindent : indentAfter indent ' ' = indent + 1 := rfl
    have hcolumn : column + ' '.utf8Size = column + 1 := rfl
    rw [List.replicate_succ, List.cons_append, lineStart]
    · rw [hindent, hcolumn, ih, if_pos (by decide)]
      simp only [LineStart.mk.injEq, and_true]
      omega
    · exact fun h => by cases h
    · exact fun _ h => by cases h
    · exact fun _ h => by cases h

theorem scanLines_nil : scanLines [] = some [] := by
  rw [scanLines]
  rfl

/-- A line that has ended, and the lines after it. -/
theorem scanLines_cons {source after : List Char} {start : LineStart} {ts : List Token}
    {trail : List Char} (hstart : lineStart 0 0 source = start) (hhere : start.here ≠ [])
    (hline : lineTokens 0 start.here = some ⟨ts, trail, some after⟩) :
    scanLines source =
      (scanLines after).map (⟨start.indent, start.column, start.lead, ts, trail⟩ :: ·) := by
  subst hstart
  rw [scanLines, if_neg (by simpa using hhere)]
  split
  · next hnone => rw [hline] at hnone; cases hnone
  · next line hsome =>
    obtain rfl := Option.some.inj (hline.symm.trans hsome)
    rfl

/-- A line behind spaces. -/
theorem IsLine.scansLines {cs : List Char} {ts : List Token} (h : IsLine cs ts) (k : Nat) :
    ScansLines (List.replicate k ' ' ++ (cs ++ ['\n']))
      [⟨k, k, List.replicate k ' ', ts, ['\n']⟩] := by
  intro rest
  obtain ⟨⟨c, u, rfl, hc, hn⟩, hline⟩ := h
  have hstart : lineStart 0 0 (List.replicate k ' ' ++ (c :: u ++ ['\n']) ++ rest) =
      ⟨k, k, List.replicate k ' ', c :: u ++ '\n' :: rest⟩ := by
    have := lineStart_spaces k 0 0 hc hn (u ++ '\n' :: rest)
    simpa using this
  rw [scanLines_cons hstart (List.cons_ne_nil _ _) (hline rest)]
  rfl

/-- The first of some lines stands behind another gap. -/
def leadBy (lead : List Char) : List Line → List Line
  | [] => []
  | l :: ls => { l with lead := lead ++ l.lead } :: ls

theorem scanLines_blank (source : List Char) :
    scanLines ('\n' :: source) = (scanLines source).map (leadBy ['\n']) := by
  have hstart : lineStart 0 0 ('\n' :: source) =
      { lineStart 0 0 source with lead := '\n' :: (lineStart 0 0 source).lead } := rfl
  conv => lhs; rw [scanLines]
  conv => rhs; rw [scanLines]
  rw [hstart]
  simp only
  split
  · rfl
  split
  · rfl
  split
  · rfl
  · rw [Option.map_map]
    rfl

namespace ScansLines

variable {cs cs' : List Char} {lines lines' : List Line}

theorem append (h : ScansLines cs lines) (h' : ScansLines cs' lines') :
    ScansLines (cs ++ cs') (lines ++ lines') := by
  intro rest
  rw [List.append_assoc, h, h', Option.map_map]
  congr 1
  funext ls
  simp

/-- An empty line in front. -/
theorem blank (h : ScansLines cs lines) (hne : lines ≠ []) :
    ScansLines ('\n' :: cs) (leadBy ['\n'] lines) := by
  intro rest
  rw [List.cons_append, scanLines_blank, h, Option.map_map]
  cases lines with
  | nil => exact absurd rfl hne
  | cons l lines => rfl

theorem scanLines_eq (h : ScansLines cs lines) : scanLines cs = some lines := by
  have := h []
  rw [List.append_nil, scanLines_nil] at this
  simpa using this

end ScansLines

end TypedStubs.Syntax
