import TypedStubs.Proofs.Syntax.Reads
import TypedStubs.Proofs.Syntax.Stretch

/-! # Assignments put together

An assignment to a name is put together from the name, a piece that is read as a hint and a piece that
is read as a value, one of which may be missing.
-/
namespace TypedStubs.Syntax

open Rule

variable {E : List Char → Prop} {ts : List Token}

/-- An assignment as it is written. -/
def assignmentChars (name : List Char) (hint value : Option (List Char)) : List Char :=
  name ++ ((hint.elim [] fun h => [':'] ++ ([' '] ++ h)) ++
    (value.elim [] fun v => [' '] ++ (['='] ++ ([' '] ++ v))))

/-- The tokens of an assignment. -/
def assignmentTokens (name : List Token) (hint value : Option (List Token)) : List Token :=
  fromGap [] name ++ ((hint.elim [] fun us => sign ":" [] :: fromGap [' '] us) ++
    (value.elim [] fun us => sign "=" [' '] :: fromGap [' '] us))

/-- What stands behind the hint of an assignment. -/
theorem scans_value {value : Option (List Char × List Token)} (h : ∀ p ∈ value, Piece 0 p.1 p.2) :
    Scans EndsLine 0 ((value.map (·.1)).elim [] fun v => [' '] ++ (['='] ++ ([' '] ++ v)))
      ((value.map (·.2)).elim [] fun us => sign "=" [' '] :: fromGap [' '] us) := by
  cases value with
  | none => exact .nil _ _
  | some p =>
    have hvalue := (h p rfl).append (isGap_space 0) (.nil EndsLine 0) fun n hn => hn.endsToken
    have := isLexeme_equals.append (isGap_space 0) hvalue fun n _ => by
      simpa using EndsToken.cons (by decide) _
    simpa [sign] using this

theorem endsToken_value (value : Option (List Char)) {n : List Char} (hn : EndsLine n) :
    EndsToken ((value.elim [] fun v => [' '] ++ (['='] ++ ([' '] ++ v))) ++ n) := by
  cases value with
  | none => exact hn.endsToken
  | some v => simpa using EndsToken.cons (by decide) _

theorem scans_assignment {name : List Char × List Token} {hint value : Option (List Char × List Token)}
    (hname : Piece 0 name.1 name.2) (hhint : ∀ p ∈ hint, Piece 0 p.1 p.2)
    (hvalue : ∀ p ∈ value, Piece 0 p.1 p.2) :
    Scans EndsLine 0 (assignmentChars name.1 (hint.map (·.1)) (value.map (·.1)))
      (assignmentTokens name.2 (hint.map (·.2)) (value.map (·.2))) := by
  have hrest := scans_value hvalue
  cases hint with
  | none =>
    have := hname.append (isGap_nil 0) hrest fun n hn => endsToken_value _ hn
    simpa [assignmentChars, assignmentTokens] using this
  | some p =>
    have hhinted := (hhint p rfl).append (isGap_space 0) hrest fun n hn => endsToken_value _ hn
    have hcolon := isLexeme_colon.append (isGap_nil 0) hhinted fun n _ => by
      simpa using EndsToken.cons (by decide) _
    have := hname.append (isGap_nil 0) hcolon fun n _ => by
      simpa using EndsToken.cons (by decide) _
    simpa [assignmentChars, assignmentTokens, sign] using this

theorem level_assignment {name : List Char × List Token} {hint value : Option (List Char × List Token)}
    (hname : Piece 0 name.1 name.2) (hhint : ∀ p ∈ hint, Piece 0 p.1 p.2)
    (hvalue : ∀ p ∈ value, Piece 0 p.1 p.2) :
    depthThrough 0 (assignmentTokens name.2 (hint.map (·.2)) (value.map (·.2))) = 0 := by
  have hsign : ∀ s gap, s = ":" ∨ s = "=" → depthAfter 0 (sign s gap).toLexeme = 0 := by
    rintro s gap (rfl | rfl) <;> rfl
  have hhinted : depthThrough 0 ((hint.map (·.2)).elim [] fun us => sign ":" [] :: fromGap [' '] us) = 0 := by
    cases hint with
    | none => rfl
    | some p => simp [hsign, (hhint p rfl).level]
  have hvalued : depthThrough 0 ((value.map (·.2)).elim [] fun us =>
      sign "=" [' '] :: fromGap [' '] us) = 0 := by
    cases value with
    | none => rfl
    | some p => simp [hsign, (hvalue p rfl).level]
  rw [assignmentTokens, depthThrough_append, hname.level, depthThrough_append, hhinted, hvalued]

theorem ordinary_assignment {name : List Char × List Token}
    {hint value : Option (List Char × List Token)} (hname : Piece 0 name.1 name.2)
    (hhint : ∀ p ∈ hint, Piece 0 p.1 p.2) (hvalue : ∀ p ∈ value, Piece 0 p.1 p.2) :
    ∀ t ∈ assignmentTokens name.2 (hint.map (·.2)) (value.map (·.2)), t.isOrdinary = true := by
  have hsign : ∀ s gap, s = ":" ∨ s = "=" → (sign s gap).isOrdinary = true := by
    rintro s gap (rfl | rfl) <;> rfl
  intro t ht
  rcases List.mem_append.1 ht with ht | ht
  · exact hname.ordinary _ t ht
  rcases List.mem_append.1 ht with ht | ht
  · cases hint with
    | none => simp at ht
    | some p =>
      rcases List.mem_cons.1 ht with rfl | ht
      · exact hsign _ _ (.inl rfl)
      · exact (hhint p rfl).ordinary _ t ht
  · cases value with
    | none => simp at ht
    | some p =>
      rcases List.mem_cons.1 ht with rfl | ht
      · exact hsign _ _ (.inr rfl)
      · exact (hvalue p rfl).ordinary _ t ht

/-- Tokens that `r` reads as `e` behind any gap, before tokens that satisfy `E`. -/
def ReadsTokens {α : Type} (E : List Token → Prop) (r : Rule α) (us : List Token) (e : α) : Prop :=
  ∀ gap g, E g → r.read (fromGap gap us ++ g) = some (e, g)

theorem endsValue_sign {s : String} (hs : s = ":" ∨ s = "=") (gap : List Char) (ts : List Token) :
    EndsValue (sign s gap :: ts) := by
  intro t ht
  obtain rfl : sign s gap = t := by simpa using ht
  rcases hs with rfl | rfl <;> rfl

/-- The value of an assignment that has a hint, if there is one. -/
theorem read_maybeValue {value : Option (List Token × Expr)}
    (hvalue : ∀ p ∈ value, ReadsTokens EndsValue assignedValue p.1 p.2) :
    (maybe (takeSymbol "=") assignedValue).read
      ((value.map (·.1)).elim [] fun us => sign "=" [' '] :: fromGap [' '] us) =
        some (value.map (·.2), []) := by
  cases value with
  | none => rfl
  | some v =>
    have hv := hvalue v rfl [' '] [] (.nil _)
    rw [List.append_nil] at hv
    simp [maybe, read_bind, read_takeSymbol_cons, hv]

theorem endsAt_value (value : Option (List Token)) :
    EndsAt isStop (value.elim [] fun us => sign "=" [' '] :: fromGap [' '] us) := by
  cases value with
  | none => exact .nil _
  | some us => exact (endsValue_sign (.inr rfl) _ _).isStop

/-- A name with a hint or a value is read as an assignment. -/
theorem read_assignment {name : List Token × Expr} {hint value : Option (List Token × Expr)}
    (hname : ReadsTokens EndsValue assignedValue name.1 name.2) (htarget : name.2.isName = true)
    (hhint : ∀ p ∈ hint, ReadsTokens (EndsAt isStop) hintExpr p.1 p.2)
    (hvalue : ∀ p ∈ value, ReadsTokens EndsValue assignedValue p.1 p.2)
    (hsome : hint.isSome = true ∨ value.isSome = true) :
    ∃ make, expressionStatement.read (assignmentTokens name.1 (hint.map (·.1)) (value.map (·.1))) =
        some (make, []) ∧
      ∀ place, make place = .assignment place [name.2] (hint.map (·.2)) (value.map (·.2)) := by
  have htarget' : isTarget name.2 = true := by
    obtain ⟨us, kind, text, parts⟩ := name
    obtain rfl : kind = .name := by simpa [Expr.isName, Expr.kind] using htarget
    rfl
  have htargets : areTargets [name.2] = true := by simp [areTargets, htarget']
  have hequals : ∀ us, (symbol "=").read (sign "=" [' '] :: us) = some ((), us) := fun us =>
    read_symbol_eq_some.2 ⟨_, rfl, by simp⟩
  cases hint with
  | none =>
    cases value with
    | none => simp at hsome
    | some v =>
      have hread := hname [] _ (endsValue_sign (.inr rfl) [' '] (fromGap [' '] v.1))
      have hv := hvalue v rfl [' '] [] (.nil _)
      have hvalues : (Rule.many (.token (·.isSymbol "=")) (do symbol "="; assignedValue)).read
          (sign "=" [' '] :: fromGap [' '] v.1) = some ([v.2], []) := by
        refine read_many_cons (by simp [Ahead.holds]) ?_ (by simp) (read_many_stop rfl _)
        simpa [read_bind, hequals] using hv
      refine ⟨_, ?_, fun place => rfl⟩
      simp only [assignmentTokens, Option.map_none, Option.elim_none, Option.map_some, Option.elim_some,
        List.nil_append, expressionStatement, read_bind, hread, atSymbol, atToken, read_ahead,
        Ahead.holds, sign_isSymbol, beq_self_eq_true, if_true, hvalues, List.dropLast_singleton,
        read_require htargets]
      rfl
  | some h =>
    have hread := fun us => hname [] _ (endsValue_sign (.inl rfl) [] us)
    have hh := hhint h rfl [' '] _ (endsAt_value (value.map (·.1)))
    have hv := read_maybeValue hvalue
    refine ⟨_, ?_, fun place => rfl⟩
    simp only [assignmentTokens, Option.map_some, Option.elim_some, List.cons_append,
      expressionStatement, read_bind, hread, atSymbol, atToken, read_ahead, Ahead.holds, sign_isSymbol]
    simp only [show ((":" : String) == "=") = false from rfl, Bool.false_eq_true, if_false,
      beq_self_eq_true, if_true, read_bind, read_takeSymbol_cons, sign_isSymbol, read_require htarget',
      hh, hv]
    rfl

/-- The words that no assignment starts with. -/
def plainWords : List String :=
  ["import", "from", "pass", "break", "continue", "return", "raise", "del", "assert", "global",
    "nonlocal"]

/-- A type alias has a name behind its first word. -/
theorem read_typeAlias_none {t u : Token} {ts : List Token} (hu : u.kind ≠ .word) :
    typeAlias.read (t :: u :: ts) = none := by
  cases h : typeAlias.read (t :: u :: ts) with
  | none => rfl
  | some found =>
    obtain ⟨_, mid, hword, htail⟩ := read_bind_eq_some.1 (show _ = some (found.1, found.2) from h)
    obtain ⟨t', heq, -⟩ := read_word_eq_some.1 hword
    obtain ⟨-, rfl⟩ := List.cons.inj heq
    obtain ⟨_, mid, hname, -⟩ := read_bind_eq_some.1 htail
    obtain ⟨name, hname⟩ := read_discard_eq_some.1 hname
    obtain ⟨u', heq, hkind, -⟩ := read_anyWord_eq_some.1 hname
    obtain ⟨rfl, -⟩ := List.cons.inj heq
    exact absurd hkind hu

/-- What is read as an assignment is one as a statement. -/
theorem simpleStatement_assignment {t u : Token} {ts : List Token} {make : Extent → Stmt}
    (hu : u.kind ≠ .word) (ht : ∀ w ∈ plainWords, t.isWord w = false)
    (h : expressionStatement.read (t :: u :: ts) = some (make, [])) :
    simpleStatement (t :: u :: ts) = some make := by
  have hwhole : wholeStatement expressionStatement (t :: u :: ts) = some make :=
    wholeStatement_eq_some.2 h
  have halias : wholeStatement typeAlias (t :: u :: ts) = none := by
    simp [wholeStatement, read_typeAlias_none hu]
  simp only [plainWords, List.forall_mem_cons] at ht
  obtain ⟨h1, h2, h3, h4, h5, h6, h7, h8, h9, h10, h11, -⟩ := ht
  simp only [simpleStatement, h1, h2, h3, h4, h5, h6, h7, h8, h9, h10, h11, Bool.or_false,
    Bool.false_eq_true, if_false, hwhole, halias]
  split
  · rfl
  · split <;> rfl

/-- What is read as a name is one word. -/
theorem name_single {name : List Token × Expr} (h : ReadsTokens EndsValue assignedValue name.1 name.2)
    (hname : name.2.isName = true) : ∃ t, name.1 = [t] ∧ t.kind = .word := by
  obtain ⟨t, ht, hkind⟩ := assignedValue_name (h [] [] (.nil _)) (by simpa [Expr.isName] using hname)
  obtain ⟨us, e⟩ := name
  cases us with
  | nil => simp [fromGap] at ht
  | cons u us =>
    obtain ⟨rfl, hus⟩ : u.behind [] = t ∧ us = [] := by simpa [fromGap] using ht
    exact ⟨u, by rw [hus], hkind⟩

/-- Pieces with the texts that they are read as. -/
theorem pieces_texts {pieces : Option (List Token × Expr)}
    (h : ∀ p ∈ pieces, Piece 0 p.2.text.toList p.1) :
    ∀ p ∈ pieces.map fun p => (p.2.text.toList, p.1), Piece 0 p.1 p.2 := by
  cases pieces with
  | none => intro p hp; cases hp
  | some q =>
    intro p hp
    obtain rfl := Option.some.inj hp
    exact h q rfl

/-- The leading word of a line with a symbol behind its first token is that token. -/
theorem leadingWord_first {line : Line} {t u : Token} {w : String} (hline : line.tokens = t :: u :: ts)
    (hu : u.kind = .symbol) (h : leadingWord line = some w) : t.isWord w = true := by
  simp only [leadingWord, hline, hu] at h
  split at h
  · simp at h
  · obtain ⟨hkind, heq⟩ := Option.ite_none_right_eq_some.1 h
    simp_all [Lexeme.isWord]

/-- An assignment to a name that starts no other statement is a line of its own. -/
theorem stretch_assignment {name : List Token × Expr} {hint value : Option (List Token × Expr)}
    (hpiece : Piece 0 name.2.text.toList name.1)
    (hname : ReadsTokens EndsValue assignedValue name.1 name.2) (htarget : name.2.isName = true)
    (halone : name.2.text ∉ blockWords ++ clauseWords ++ plainWords)
    (hhintPiece : ∀ p ∈ hint, Piece 0 p.2.text.toList p.1)
    (hhint : ∀ p ∈ hint, ReadsTokens (EndsAt isStop) hintExpr p.1 p.2)
    (hvaluePiece : ∀ p ∈ value, Piece 0 p.2.text.toList p.1)
    (hvalue : ∀ p ∈ value, ReadsTokens EndsValue assignedValue p.1 p.2)
    (hsome : hint.isSome = true ∨ value.isSome = true) (k : Nat) :
    ∃ place, Stretch k (List.replicate k ' ' ++ (assignmentChars name.2.text.toList
        (hint.map (·.2.text.toList)) (value.map (·.2.text.toList)) ++ ['\n']))
      [.assignment place [name.2] (hint.map (·.2)) (value.map (·.2))] := by
  obtain ⟨t, hsingle, hword⟩ := name_single hname htarget
  obtain ⟨make, hread, hmake⟩ := read_assignment hname htarget hhint hvalue hsome
  have htext : t.text = name.2.text := by
    have hchars := hpiece.chars
    rw [hsingle, spanChars_cons, written_nil, List.append_nil] at hchars
    rw [Lexeme.text, hchars, String.ofList_toList]
  have hword' : ∀ w ∈ blockWords ++ clauseWords ++ plainWords, (t.behind []).isWord w = false := by
    intro w hw
    have hne : t.text ≠ w := fun heq => halone (by rw [← htext, heq]; exact hw)
    simp [Lexeme.isWord, hne]
  obtain ⟨u, ts, htokens, hu⟩ : ∃ u ts, assignmentTokens name.1 (hint.map (·.1)) (value.map (·.1)) =
      t.behind [] :: u :: ts ∧ u.kind = .symbol := by
    rw [hsingle]
    cases hint with
    | some p => exact ⟨sign ":" [], _, rfl, rfl⟩
    | none =>
      cases value with
      | some p => exact ⟨sign "=" [' '], _, rfl, rfl⟩
      | none => simp at hsome
  have hnamePiece : Piece 0 (name.2.text.toList, name.1).1 (name.2.text.toList, name.1).2 := hpiece
  have hhints := pieces_texts hhintPiece
  have hvalues := pieces_texts hvaluePiece
  have hscan := scans_assignment hnamePiece hhints hvalues
  have hlevel := level_assignment hnamePiece hhints hvalues
  have hordinary := ordinary_assignment hnamePiece hhints hvalues
  simp only [Option.map_map, Function.comp_def] at hscan hlevel hordinary
  obtain ⟨c, cs, hcs, hc⟩ := hpiece.start
  have hline : IsLine (assignmentChars name.2.text.toList (hint.map (·.2.text.toList))
      (value.map (·.2.text.toList))) (assignmentTokens name.1 (hint.map (·.1)) (value.map (·.1))) :=
    hscan.isLine_of_start (by rw [assignmentChars, hcs]; rfl) hc hlevel
  have hsimple : simpleStatement (assignmentTokens name.1 (hint.map (·.1)) (value.map (·.1))) =
      some make := by
    rw [htokens] at hread ⊢
    exact simpleStatement_assignment (by simp [hu]) (fun w hw => hword' w (by simp [hw])) hread
  have hread' := @simpleStatements_one k _ hordinary
  rw [hsimple, Option.map_some, hmake] at hread'
  refine ⟨_, stretch_simple hline ?_ ?_ hread'⟩
  · intro t' ht'
    obtain rfl : t.behind [] = t' := by simpa [htokens] using ht'
    exact ⟨by simp [Lexeme.isComment, hword], by simp [Lexeme.isSymbol, hword],
      fun w hw => hword' w (by simp [hw])⟩
  · intro w hw hblock
    have hfirst := leadingWord_first htokens hu hw
    rw [hword' w (by simp [hblock])] at hfirst
    cases hfirst

end TypedStubs.Syntax
