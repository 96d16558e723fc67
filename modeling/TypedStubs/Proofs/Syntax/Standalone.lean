import TypedStubs.Proofs.Syntax.Layer
import TypedStubs.Proofs.Syntax.Spelling

/-! # Expressions that stand alone

A text is an expression if it is scanned as tokens, the way it is in brackets, and all of them are read as one
(`IsExpression`).  Each token then stands somewhere in the text, behind a gap that is blank but for comments
(`StandsAt`, `IsExpression.stands`), and no name goes on behind it if it is a word (`StandsAt.word`).
-/
namespace TypedStubs.Syntax

variable {depth : Nat} {source front rest : List Char} {ts us vs : List Token} {t : Token} {text : String}
  {e : Expr}

/-! ## The characters of tokens -/

theorem mem_spanChars {x : Char} :
    x ∈ spanChars (t :: ts) ↔ x ∈ t.chars ∨ ∃ u ∈ ts, x ∈ u.before ∨ x ∈ u.chars := by
  simp [spanChars_cons, written, List.mem_flatMap]

theorem spanChars_subset_cons : spanChars ts ⊆ spanChars (t :: ts) := by
  cases ts with
  | nil => exact List.nil_subset _
  | cons u ts =>
    rw [spanChars_cons t, spanChars_cons u, written_cons, List.append_assoc]
    exact List.subset_append_of_subset_right _ (List.subset_append_right _ _)

/-! ## Where tokens stand -/

/-- A token stands in a source behind `front` and before `rest`. -/
structure StandsAt (source front : List Char) (t : Token) (rest : List Char) : Prop where
  /-- What is around it. -/
  source : source = front ++ (t.before ++ (t.chars ++ rest))
  /-- Up to a comment the gap before it is blank. -/
  gap : ∀ x ∈ t.before.takeWhile (· != '#'), isGap x = true ∨ x = '\n' ∨ x = '\\'
  /-- It is what the scanner finds there. -/
  scanned : ∃ c u, t.chars = c :: u ∧ lexemeOrComment c (u ++ rest) = some (t.kind, rest)

theorem standsAt_of_lineTokens {line : LineRest} (h : lineTokens depth source = some line)
    (hts : line.tokens = us ++ t :: vs) :
    ∃ n, StandsAt source (written us) t (written vs ++ n) := by
  induction us generalizing depth source line with
  | nil =>
    obtain ⟨c, u, rest, more, hchars, -, hsource, hgap, hread, hmore, rfl⟩ := lineTokens_cons h hts
    obtain ⟨n, hrest⟩ := source_eq_written hmore
    have hvs : more.tokens = vs := by simpa [LineRest.behind] using hts
    rw [hvs] at hrest
    subst hrest
    exact ⟨n, by simpa [hchars] using hsource, lineGap_chars hgap, c, u, hchars, hread⟩
  | cons v us ih =>
    obtain ⟨c, u, rest, more, hchars, -, hsource, -, -, hmore, rfl⟩ := lineTokens_cons h hts
    obtain ⟨n, hstands⟩ := ih hmore (by simpa [LineRest.behind] using hts)
    refine ⟨n, ?_, hstands.gap, hstands.scanned⟩
    rw [hsource, hstands.source]
    simp [hchars]

/-- Without a comment the gap before a token is blank. -/
theorem StandsAt.blank (h : StandsAt source front t rest) (hcomment : '#' ∉ t.before) :
    ∀ x ∈ t.before, isGap x = true ∨ x = '\n' ∨ x = '\\' := by
  have hall : t.before.takeWhile (· != '#') = t.before := by
    refine List.takeWhile_eq_self_iff.2 fun x hx => ?_
    have hne : x ≠ '#' := fun heq => hcomment (heq ▸ hx)
    simpa using hne
  exact hall ▸ h.gap

/-- No name goes on behind a word. -/
theorem StandsAt.word (h : StandsAt source front t rest) (hword : t.kind = .word) :
    EndsName rest ∧ ∃ c u, t.chars = c :: u ∧ Text.startsWord c = true := by
  obtain ⟨c, u, hchars, hread⟩ := h.scanned
  have hcomment : c ≠ '#' := fun hc => by
    cases hword.symm.trans ((lexemeOrComment_comment hread).2 hc)
  rw [lexemeOrComment, if_neg hcomment, hword] at hread
  have hscan := scannedAs_of_lexeme hread
  generalize hkind : TokenKind.word = kind at hscan
  generalize u ++ rest = cs at hscan
  cases hscan with
  | word hstart => exact ⟨endsName_dropWhile cs, c, u, hchars, hstart⟩
  | number => split at hkind <;> cases hkind
  | string | symbol => cases hkind

/-! ## Expressions -/

/-- A text is an expression: it is scanned as the tokens `ts`, and all of them are read as `e`. -/
structure IsExpression (text : String) (ts : List Token) (e : Expr) : Prop where
  /-- Its tokens. -/
  tokens : scanBracketed text.toList = some ts
  /-- What they are read as. -/
  read : expression .full ts = some (e, [])

namespace IsExpression

theorem line (h : IsExpression text ts e) :
    ∃ line, lineTokens 1 text.toList = some line ∧ line.tokens = ts := by
  simpa [scanBracketed] using h.tokens

theorem stands (h : IsExpression text ts e) (us : List Token) (hts : ts = us ++ t :: vs) :
    ∃ n, StandsAt text.toList (written us) t (written vs ++ n) := by
  obtain ⟨line, hline, rfl⟩ := h.line
  exact standsAt_of_lineTokens hline hts

/-- There is no comment among the tokens. -/
theorem not_comment (h : IsExpression text ts e) (ht : t ∈ ts) : t.isComment = false := by
  obtain ⟨taken, hts, hnet⟩ := expression_nets _ h.read
  rw [List.append_nil] at hts
  subst hts
  have hordinary := hnet.ordinary t ht
  simp only [Lexeme.isOrdinary, Bool.and_eq_true, Bool.not_eq_true'] at hordinary
  exact hordinary.1

theorem isLexeme (h : IsExpression text ts e) (ht : t ∈ ts) : IsLexeme t.kind t.chars := by
  obtain ⟨line, hline, hts⟩ := h.line
  obtain ⟨us, vs, rfl⟩ := List.append_of_mem ht
  have hscan : Scanned 1 (us ++ t :: vs) := ⟨_, line, hline, hts ▸ List.prefix_rfl⟩
  exact hscan.drop.isLexeme (h.not_comment ht)

theorem chars_subset (h : IsExpression text ts e) (ht : t ∈ ts) : t.chars ⊆ text.toList := by
  obtain ⟨us, vs, hts⟩ := List.append_of_mem ht
  obtain ⟨n, hstands⟩ := h.stands us hts
  intro x hx
  rw [hstands.source]
  simp [hx]

/-- The text of the expression itself. -/
theorem text_eq (h : IsExpression text ts e) : e.text = String.ofList (spanChars ts) := by
  obtain ⟨inside, -, rfl⟩ := expression_eq_some.1 h.read
  have := textSince_append_right ts []
  rwa [List.append_nil] at this

/-- Strings are spelled with strings. -/
theorem isString (h : IsExpression text ts e) (hkind : e.kind ∈ [.string, .adjacentStrings]) (ht : t ∈ ts) :
    isString t.toLexeme = true := by
  simp only [List.mem_cons, List.not_mem_nil, or_false] at hkind
  rcases hkind with hstring | hadjacent
  · obtain ⟨u, rfl, hu, -⟩ := expression_string h.read hstring
    rwa [List.mem_singleton.1 ht]
  · obtain ⟨us, rfl, hparts⟩ := expression_adjacentStrings h.read hadjacent
    rw [List.append_nil] at ht
    clear h
    generalize e.parts = parts at hparts
    induction hparts with
    | nil => cases ht
    | cons hfirst _ ih =>
      rcases List.mem_cons.1 ht with rfl | ht
      · exact hfirst.1
      · exact ih ht

/-- Without a comment, what is between the tokens is blank. -/
theorem mem_spanChars_cases (h : IsExpression text ts e) (hcomment : '#' ∉ spanChars ts) {x : Char}
    (hx : x ∈ spanChars ts) : (∃ t ∈ ts, x ∈ t.chars) ∨ isGap x = true ∨ x = '\n' ∨ x = '\\' := by
  cases ts with
  | nil => cases hx
  | cons t ts =>
    rcases mem_spanChars.1 hx with hchar | ⟨u, hu, hgap | hchar⟩
    · exact .inl ⟨t, List.mem_cons_self, hchar⟩
    · right
      obtain ⟨us, vs, rfl⟩ := List.append_of_mem hu
      obtain ⟨n, hstands⟩ := h.stands (t :: us) rfl
      exact hstands.blank (fun hmem => hcomment (mem_spanChars.2 (.inr ⟨u, hu, .inl hmem⟩))) x hgap
    · exact .inl ⟨u, List.mem_cons_of_mem _ hu, hchar⟩

end IsExpression
end TypedStubs.Syntax
