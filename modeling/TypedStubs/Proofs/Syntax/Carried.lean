import TypedStubs.Proofs.Syntax.Kept
import TypedStubs.Proofs.Syntax.Trimmed

/-! # Statements without a body on lines of their own

A statement without a body that was read off a source, behind a semicolon perhaps, is read as the same statement
where it stands alone on a line (`stretch_simpleStatement`), unless the line would start a statement with bodies.
Nothing of it depends on where it stands but its place (`IsMade`), and an assignment to one name has a hint and
a value that can be written again (`keptAssignment`).
-/
namespace TypedStubs.Syntax

open Rule

variable {t : Token} {ts : List Token} {make : Extent → Stmt}

/-! ## What the rules for statements give -/

/-- A statement that stands somewhere else. -/
def Stmt.at (s : Stmt) (place : Extent) : Stmt :=
  match s with
  | .expression _ values => .expression place values
  | .assignment _ targets typed value => .assignment place targets typed value
  | .returns _ value => .returns place value
  | .raises _ parts => .raises place parts
  | .passes _ => .passes place
  | .importing _ imports => .importing place imports
  | .plain _ parts => .plain place parts
  | .compound _ parts => .compound place parts
  | .comment _ => .comment place
  | .function head decorators body => .function head decorators body
  | .classDef head decorators body => .classDef head decorators body
  | .header value => .header value

/-- Whether a statement is an assignment. -/
def Stmt.isAssignment : Stmt → Bool
  | .assignment _ _ _ _ => true
  | _ => false

/-- How a statement without a body is made: it is no comment, and it is the same wherever it stands. -/
structure IsMade (make : Extent → Stmt) : Prop where
  /-- It is no comment. -/
  comment : ∀ place, (make place).isComment = false
  /-- Nothing of it depends on where it stands but its place. -/
  moved : ∀ place other, make other = (make place).at other

/-- How a statement is made that is no assignment. -/
structure IsOther (make : Extent → Stmt) : Prop extends IsMade make where
  /-- It is no assignment. -/
  other : ∀ place, (make place).isAssignment = false

theorem wordStatement_gives {make : Extent → Stmt} (name : String) (h : IsOther make) :
    Gives IsOther (wordStatement name make) := .bind fun _ => .pure h

/-- Only the rule for expressions gives assignments. -/
theorem StatementRule.gives {r : Rule (Extent → Stmt)} (h : StatementRule t r) :
    Gives IsOther r ∨ r = expressionStatement ∧ ∀ w ∈ plainWords, t.isWord w = false := by
  cases h with
  | importing => exact .inl (.bind fun _ => .pure ⟨⟨fun _ => rfl, fun _ _ => rfl⟩, fun _ => rfl⟩)
  | passes => exact .inl (wordStatement_gives _ ⟨⟨fun _ => rfl, fun _ _ => rfl⟩, fun _ => rfl⟩)
  | word name => exact .inl (wordStatement_gives _ ⟨⟨fun _ => rfl, fun _ _ => rfl⟩, fun _ => rfl⟩)
  | returns =>
    refine .inl (.bind fun _ => .bind fun _ => ?_)
    exact .pure ⟨⟨fun _ => rfl, fun _ _ => rfl⟩, fun _ => rfl⟩
  | del =>
    refine .inl (.bind fun _ => .bind fun _ => ?_)
    exact .pure ⟨⟨fun _ => rfl, fun _ _ => rfl⟩, fun _ => rfl⟩
  | raises | assert | scope =>
    refine .inl (.bind fun _ => .bind fun _ => .bind fun _ => ?_)
    exact .pure ⟨⟨fun _ => rfl, fun _ _ => rfl⟩, fun _ => rfl⟩
  | typeAlias =>
    refine .inl (.bind fun _ => .bind fun _ => .bind fun _ => .bind fun _ => .bind fun _ => ?_)
    exact .pure ⟨⟨fun _ => rfl, fun _ _ => rfl⟩, fun _ => rfl⟩
  | print =>
    refine .inl (.bind fun _ => .bind fun _ => .bind fun _ => .bind fun _ => ?_)
    exact .pure ⟨⟨fun _ => rfl, fun _ _ => rfl⟩, fun _ => rfl⟩
  | expression hplain => exact .inr ⟨rfl, hplain⟩

theorem expressionStatement_gives : Gives IsMade expressionStatement := by
  refine .bind fun first => .bind fun _ => .ite ?_ (.bind fun _ => .ite ?_ (.bind fun _ => .ite ?_ ?_))
  · exact .bind fun _ => .bind fun _ => .pure ⟨fun _ => rfl, fun _ _ => rfl⟩
  · exact .bind fun _ => .bind fun _ => .bind fun _ => .pure ⟨fun _ => rfl, fun _ _ => rfl⟩
  · exact .bind fun _ => .bind fun _ => .bind fun _ => .pure ⟨fun _ => rfl, fun _ _ => rfl⟩
  · exact .pure ⟨fun _ => rfl, fun _ _ => rfl⟩

/-- **Nothing of a statement without a body depends on where it stands but its place.** -/
theorem isMade_of_simpleStatement (h : simpleStatement ts = some make) : IsMade make := by
  obtain ⟨t, r, -, hrule, hread⟩ := exists_statementRule h
  rcases hrule.gives with hother | ⟨rfl, -⟩
  · exact (hother hread).toIsMade
  · exact expressionStatement_gives hread

/-! ## Assignments -/

/-- The pieces of an assignment to one target can be written again. -/
structure KeptAssignment (target : Expr) (typed value : Option Expr) : Prop where
  /-- The hint or the value is there. -/
  known : typed.isSome = true ∨ value.isSome = true
  /-- The target is read again. -/
  target : Reads EndsValue 0 assignedValue target.text.toList target
  /-- The hint is read again. -/
  typed : ∀ e ∈ typed, Reads (EndsAt isStop) 0 hintExpr e.text.toList e
  /-- The value is read again. -/
  value : ∀ e ∈ value, Reads EndsValue 0 assignedValue e.text.toList e

theorem endsValue_of_isSymbol {s : String} (h : t.isSymbol s = true) (hs : s ∈ [":", "="]) (ts : List Token) :
    EndsValue (t :: ts) := by
  intro u hu
  obtain rfl : t = u := by simpa using hu
  simp only [Lexeme.isSymbol, Bool.and_eq_true, beq_iff_eq] at h
  simp only [isOneOf, h.1, h.2, List.contains_iff_mem.2 hs]
  rfl

/-- A symbol that is said to be next is next. -/
theorem exists_of_atSymbol {s : String} {rest : List Token} (h : (atSymbol s).read ts = some (true, rest)) :
    rest = ts ∧ ∃ t us, ts = t :: us ∧ t.isSymbol s = true := by
  obtain ⟨hholds, rfl⟩ := Prod.mk.inj (Option.some.inj h)
  cases ts with
  | nil => cases hholds
  | cons t us => exact ⟨rfl, t, us, rfl, hholds⟩

theorem exists_of_takeSymbol {s : String} {rest : List Token}
    (h : (takeSymbol s).read ts = some (true, rest)) : ∃ t, ts = t :: rest ∧ t.isSymbol s = true := by
  cases ts with
  | nil => cases h
  | cons t us =>
    rw [read_takeSymbol_cons] at h
    obtain ⟨ht, hrest⟩ := Prod.mk.inj (Option.some.inj h)
    rw [if_pos ht] at hrest
    exact ⟨t, by rw [hrest], ht⟩

theorem eq_of_takeSymbol {s : String} {rest : List Token}
    (h : (takeSymbol s).read ts = some (false, rest)) : ts = rest := by
  cases ts with
  | nil => exact (Prod.mk.inj (Option.some.inj h)).2
  | cons t us =>
    rw [read_takeSymbol_cons] at h
    obtain ⟨ht, hrest⟩ := Prod.mk.inj (Option.some.inj h)
    rwa [if_neg (by simp [ht])] at hrest

theorem read_require_eq_some {c : Bool} {u : Unit} {rest : List Token}
    (h : (require c).read ts = some (u, rest)) : c = true ∧ ts = rest := by
  unfold require at h
  split at h
  · next hc => exact ⟨hc, (Prod.mk.inj (Option.some.inj h)).2⟩
  · cases h

/-- Values behind equals signs can be written again. -/
theorem reads_of_many {values : List Expr} (hscan : Scanned 0 ts)
    (h : (Rule.many (.token (·.isSymbol "=")) (do symbol "="; assignedValue)).read ts = some (values, [])) :
    ∀ e ∈ values, Reads EndsValue 0 assignedValue e.text.toList e := by
  induction values generalizing ts with
  | nil => exact List.forall_mem_nil _
  | cons e values ih =>
    rcases read_many_eq_some.1 h with ⟨-, hnil, -⟩ | ⟨-, found, mid, more, hread, -, hmore, hcons⟩
    · cases hnil
    obtain ⟨rfl, rfl⟩ := List.cons.inj hcons
    obtain ⟨_, us, hsign, hvalue⟩ := read_bind_eq_some.1 hread
    obtain ⟨t, rfl, ht⟩ := read_symbol_eq_some.1 hsign
    have hus := hscan.behind_symbol ht (by decide)
    have hend : EndsValue mid := by
      rcases read_many_eq_some.1 hmore with ⟨-, -, rfl⟩ | ⟨hgo, -⟩
      · exact .nil _
      · cases mid with
        | nil => cases hgo
        | cons u mid => exact endsValue_of_isSymbol (s := "=") hgo (by decide) mid
    exact List.forall_mem_cons.2 ⟨reads_value hus hend hvalue, ih (hus.behind_zero assignedValue_nets hvalue) hmore⟩

/-- Behind anything but an equals sign or a colon there is no assignment. -/
theorem otherExpression_gives (first : Expr) : Gives (fun make => ∀ place, (make place).isAssignment = false)
    (do
      if ← atToken (isOneOf augmentedOperators) then
        require (isTarget first)
        symbolIn augmentedOperators
        let value ← assignedValue
        return fun place => .plain place [first, value]
      else
        let values := match first with
          | .node .bareTuple _ parts => parts
          | other => [other]
        return fun place => .expression place values : Rule (Extent → Stmt)) := by
  refine .bind fun _ => .ite ?_ (.pure fun _ => rfl)
  exact .bind fun _ => .bind fun _ => .bind fun _ => .pure fun _ => rfl

/-- The value of an assignment can be written again. -/
theorem keptValue_of_read {place place' : Extent} {targets : List Expr} {typed value : Option Expr}
    (hscan : Scanned 0 ts) (h : expressionStatement.read ts = some (make, []))
    (hmake : make place = .assignment place' targets typed value) :
    ∀ e ∈ value, Reads EndsValue 0 assignedValue e.text.toList e := by
  obtain ⟨first, mid, hfirst, h⟩ := read_bind_eq_some.1 h
  have hmid := hscan.behind_zero assignedValue_nets hfirst
  obtain ⟨given, mid', hat, hrest⟩ := read_bind_eq_some.1 h
  obtain ⟨-, rfl⟩ := Prod.mk.inj (Option.some.inj hat)
  cases given with
  | true =>
    rw [if_pos rfl] at hrest
    obtain ⟨values, last, hmany, hmore⟩ := read_bind_eq_some.1 hrest
    obtain ⟨_, last', hrequire, hend⟩ := read_bind_eq_some.1 hmore
    obtain ⟨rfl, rfl⟩ := Prod.mk.inj (Option.some.inj hend)
    obtain ⟨-, -, -, rfl⟩ := Stmt.assignment.inj hmake
    obtain rfl := (read_require_eq_some hrequire).2
    exact fun e he => reads_of_many hmid hmany e (List.mem_of_getLast? he)
  | false =>
    rw [if_neg (by simp)] at hrest
    obtain ⟨given, behind, htake, hrest'⟩ := read_bind_eq_some.1 hrest
    cases given with
    | true =>
      rw [if_pos rfl] at hrest'
      obtain ⟨t, rfl, ht⟩ := exists_of_takeSymbol htake
      obtain ⟨_, behind', hrequire, hmore⟩ := read_bind_eq_some.1 hrest'
      obtain rfl := (read_require_eq_some hrequire).2
      obtain ⟨hint, after, hhint, hmore'⟩ := read_bind_eq_some.1 hmore
      obtain ⟨found, last, hvalue, hend⟩ := read_bind_eq_some.1 hmore'
      obtain ⟨rfl, rfl⟩ := Prod.mk.inj (Option.some.inj hend)
      obtain ⟨-, -, -, rfl⟩ := Stmt.assignment.inj hmake
      have hafter := (hmid.behind_symbol ht (by decide)).behind_zero hintExpr_nets hhint
      obtain ⟨given, us, htake', hgiven⟩ := read_bind_eq_some.1 hvalue
      cases given with
      | true =>
        obtain ⟨u, rfl, hu⟩ := exists_of_takeSymbol htake'
        obtain ⟨e, us', hread, heq⟩ := read_bind_eq_some.1 hgiven
        obtain ⟨rfl, rfl⟩ := Prod.mk.inj (Option.some.inj heq)
        rintro _ ⟨⟩
        exact reads_value (hafter.behind_symbol hu (by decide)) (.nil _) hread
      | false =>
        obtain ⟨rfl, rfl⟩ := Prod.mk.inj (Option.some.inj hgiven)
        exact nofun
    | false =>
      -- neither an equals sign nor a colon stands behind the first expression
      rw [if_neg (by simp)] at hrest'
      have hother : (make place).isAssignment = false := otherExpression_gives first hrest' place
      rw [hmake] at hother
      cases hother

theorem keptAssignment_of_read {place place' : Extent} {target : Expr} {typed value : Option Expr}
    (hscan : Scanned 0 ts) (h : expressionStatement.read ts = some (make, []))
    (hmake : make place = .assignment place' [target] typed value) :
    KeptAssignment target typed value ∧ ∃ rest, assignedValue.read ts = some (target, rest) := by
  have hkept := keptValue_of_read hscan h hmake
  obtain ⟨first, mid, hfirst, h⟩ := read_bind_eq_some.1 h
  have hmid := hscan.behind_zero assignedValue_nets hfirst
  obtain ⟨given, mid', hat, hrest⟩ := read_bind_eq_some.1 h
  cases given with
  | true =>
    rw [if_pos rfl] at hrest
    obtain ⟨rfl, t, us, rfl, ht⟩ := exists_of_atSymbol hat
    obtain ⟨values, last, hmany, hmore⟩ := read_bind_eq_some.1 hrest
    obtain ⟨_, last', hrequire, hend⟩ := read_bind_eq_some.1 hmore
    obtain ⟨rfl, rfl⟩ := Prod.mk.inj (Option.some.inj hend)
    obtain ⟨-, htargets, rfl, rfl⟩ := Stmt.assignment.inj hmake
    obtain ⟨rfl, hlast⟩ := List.cons.inj htargets
    have htarget := reads_value hscan (endsValue_of_isSymbol ht (by decide) us) hfirst
    refine ⟨⟨.inr ?_, htarget, by simp, hkept⟩, _, hfirst⟩
    rcases read_many_eq_some.1 hmany with ⟨hno, -, -⟩ | ⟨-, found, _, more, -, -, -, rfl⟩
    · exact absurd ht (by simpa [Ahead.holds] using hno)
    · simp
  | false =>
    rw [if_neg (by simp)] at hrest
    obtain ⟨-, rfl⟩ := Prod.mk.inj (Option.some.inj hat)
    obtain ⟨given, behind, htake, hrest'⟩ := read_bind_eq_some.1 hrest
    cases given with
    | true =>
      rw [if_pos rfl] at hrest'
      obtain ⟨t, rfl, ht⟩ := exists_of_takeSymbol htake
      obtain ⟨_, behind', hrequire, hmore⟩ := read_bind_eq_some.1 hrest'
      obtain rfl := (read_require_eq_some hrequire).2
      obtain ⟨hint, after, hhint, hmore'⟩ := read_bind_eq_some.1 hmore
      obtain ⟨found, last, hvalue, hend⟩ := read_bind_eq_some.1 hmore'
      obtain ⟨rfl, rfl⟩ := Prod.mk.inj (Option.some.inj hend)
      obtain ⟨-, htargets, rfl, rfl⟩ := Stmt.assignment.inj hmake
      obtain rfl := List.singleton_inj.1 htargets
      have hbehind := hmid.behind_symbol ht (by decide)
      have htarget := reads_value hscan (endsValue_of_isSymbol ht (by decide) behind) hfirst
      have hstop : EndsAt isStop after := by
        obtain ⟨given, us, htake', hgiven⟩ := read_bind_eq_some.1 hvalue
        cases given with
        | true =>
          obtain ⟨u, rfl, hu⟩ := exists_of_takeSymbol htake'
          exact endsAt_of_isSymbol hu (by decide) us
        | false =>
          obtain ⟨-, rfl⟩ := Prod.mk.inj (Option.some.inj hgiven)
          rw [eq_of_takeSymbol htake']
          exact .nil _
      refine ⟨⟨.inl rfl, htarget, ?_, hkept⟩, _, hfirst⟩
      rintro _ ⟨⟩
      exact reads_hint hbehind hstop hhint
    | false =>
      rw [if_neg (by simp)] at hrest'
      have hother : (make place).isAssignment = false := otherExpression_gives first hrest' place
      rw [hmake] at hother
      cases hother

/-- The value of an assignment that is a statement of its own can be written again. -/
theorem keptValue {place place' : Extent} {targets : List Expr} {typed value : Option Expr}
    (hscan : Scanned 0 ts) (h : simpleStatement ts = some make)
    (hmake : make place = .assignment place' targets typed value) :
    ∀ e ∈ value, Reads EndsValue 0 assignedValue e.text.toList e := by
  obtain ⟨t, r, ht, hrule, hread⟩ := exists_statementRule h
  rcases hrule.gives with hother | ⟨rfl, -⟩
  · have := (hother hread).other place
    rw [hmake] at this
    cases this
  · exact keptValue_of_read hscan hread hmake

/-- **An assignment to one target keeps pieces that can be written again**, and a name starts with no word of
another statement. -/
theorem keptAssignment {place place' : Extent} {target : Expr} {typed value : Option Expr}
    (hscan : Scanned 0 ts) (h : simpleStatement ts = some make)
    (hmake : make place = .assignment place' [target] typed value) :
    KeptAssignment target typed value ∧ (target.isName = true → target.text ∉ plainWords) := by
  obtain ⟨t, r, ht, hrule, hread⟩ := exists_statementRule h
  rcases hrule.gives with hother | ⟨rfl, hplain⟩
  · have := (hother hread).other place
    rw [hmake] at this
    cases this
  · obtain ⟨hkept, rest, htarget⟩ := keptAssignment_of_read hscan hread hmake
    refine ⟨hkept, fun hname hmem => ?_⟩
    obtain ⟨u, hu, hkind⟩ := assignedValue_name htarget (by simpa [Expr.isName] using hname)
    have htext := assignedValue_spelled htarget
    subst hu
    obtain rfl : u = t := by simpa using ht
    rw [textSince_single] at htext
    have := hplain _ hmem
    simp [Lexeme.isWord, hkind, htext] at this

/-! ## Statements that are kept -/

namespace Stmt.Kept

variable {decorators : List Expr} {body : List Stmt}

/-- A function that is kept keeps its head and its decorators. -/
theorem function_head {head : FunctionHead} (h : (Stmt.function head decorators body).Kept) :
    head.Kept ∧ KeptDecorators decorators := by
  generalize hs : Stmt.function head decorators body = s at h
  cases h with
  | @simple ts make column hscan hsimple =>
    have hplace := simpleStatement_place hsimple ⟨String.ofList (spanChars ts), column⟩
    rw [← hs] at hplace
    cases hplace
  | comment | compound | classDef => cases hs
  | function hhead hdecorators =>
    cases hs
    exact ⟨hhead, hdecorators⟩

/-- A class that is kept keeps its head and its decorators. -/
theorem class_head {head : ClassHead} (h : (Stmt.classDef head decorators body).Kept) :
    head.Kept ∧ KeptDecorators decorators := by
  generalize hs : Stmt.classDef head decorators body = s at h
  cases h with
  | @simple ts make column hscan hsimple =>
    have hplace := simpleStatement_place hsimple ⟨String.ofList (spanChars ts), column⟩
    rw [← hs] at hplace
    cases hplace
  | comment | compound | function => cases hs
  | classDef hhead hdecorators =>
    cases hs
    exact ⟨hhead, hdecorators⟩

/-- An assignment to one target that is kept keeps its pieces. -/
theorem assignment {place : Extent} {target : Expr} {typed value : Option Expr}
    (h : (Stmt.assignment place [target] typed value).Kept) :
    KeptAssignment target typed value ∧ (target.isName = true → target.text ∉ plainWords) := by
  generalize hs : Stmt.assignment place [target] typed value = s at h
  cases h with
  | simple column hscan hsimple => exact keptAssignment hscan hsimple hs.symm
  | comment | compound | function | classDef => cases hs

/-- An assignment that is kept keeps its value. -/
theorem value {place : Extent} {targets : List Expr} {typed value : Option Expr}
    (h : (Stmt.assignment place targets typed value).Kept) :
    ∀ e ∈ value, Reads EndsValue 0 assignedValue e.text.toList e := by
  generalize hs : Stmt.assignment place targets typed value = s at h
  cases h with
  | simple column hscan hsimple => exact keptValue hscan hsimple hs.symm
  | comment | compound | function | classDef => cases hs

end Stmt.Kept

/-! ## Lines of their own -/

/-- No statement looks at the gap before its first token. -/
theorem simpleStatement_behind (h : simpleStatement (t :: ts) = some make) (gap : List Char) :
    simpleStatement (t.behind gap :: ts) = some make := by
  have hread : ∀ {r : Rule (Extent → Stmt)} {u : Token} {made : Extent → Stmt} (gap : List Char),
      r.read (u :: ts) = some (made, []) → r.read (u.behind gap :: ts) = some (made, []) := by
    intro r u made gap h
    rcases r.read_gapFree gap h with ⟨hnil, -⟩ | ⟨-, hbehind⟩
    · cases hnil
    · exact hbehind
  have hwhole : ∀ r, wholeStatement r (t.behind gap :: ts) = wholeStatement r (t :: ts) := by
    intro r
    refine Option.ext fun made => ?_
    rw [wholeStatement_eq_some, wholeStatement_eq_some]
    exact ⟨hread (u := t.behind gap) t.before, hread gap⟩
  simpa only [simpleStatement, hwhole, Token.behind_toLexeme] using h

/-- No statement without a body starts with the sign of a decorator. -/
theorem not_sign_of_simpleStatement (h : simpleStatement (t :: ts) = some make) : t.isSymbol "@" = false := by
  refine Bool.eq_false_iff.2 fun ht => ?_
  have hkind : t.kind = .symbol := by
    simp only [Lexeme.isSymbol, Bool.and_eq_true, beq_iff_eq] at ht
    exact ht.1
  rw [simpleStatement_of_other fun w _ => by simp [Lexeme.isWord, hkind]] at h
  obtain ⟨first, mid, hfirst, -⟩ := read_bind_eq_some.1 (wholeStatement_eq_some.1 h)
  obtain ⟨u, us, heq, hstarts, -⟩ := assignedValue_starts.read hfirst
  obtain ⟨rfl, -⟩ := List.cons.inj heq
  rw [startsPiece_isSymbol hstarts (by decide) (by decide)] at ht
  cases ht

/-- The first word of some tokens is the first of them if that is a word. -/
theorem firstWord_spanChars {depth : Nat} (hscan : Scanned depth (t :: ts)) (hword : t.kind = .word) :
    firstWord (spanChars (t :: ts)) = t.text := by
  cases ts with
  | nil =>
    have hlexeme := hscan.isLexeme (by simp [Lexeme.isComment, hword])
    rw [hword] at hlexeme
    rw [firstWord, spanChars_cons, written_nil, List.append_nil,
      List.takeWhile_eq_self_iff.2 hlexeme.continuesName]
    rfl
  | cons u us =>
    have hprefix : spanChars (t :: u :: us) <+: spanChars (t :: u :: us) ++ [] := List.prefix_append _ _
    exact firstWord_of_scanned hscan hword ⟨written (u :: us), rfl⟩ hprefix

/-- No statement without a body ends with a line feed. -/
theorem getLast?_spanChars_ne (hscan : Scanned 0 ts) (h : simpleStatement ts = some make) :
    (spanChars ts).getLast? ≠ some '\n' := by
  intro hlast
  have hne : ts ≠ [] := by
    rintro rfl
    cases h
  have hcomment : ∀ t ∈ ts, t.isComment = false := fun t ht => by
    have hordinary := (simpleStatement_netting h).ordinary t ht
    simp only [Lexeme.isOrdinary, Bool.and_eq_true, Bool.not_eq_true'] at hordinary
    exact hordinary.1
  have hblank := (hscan.isTrimmed hne hcomment).back _ hlast
  revert hblank
  decide

/-- **A statement without a body is read again where it stands alone on a line**, unless the line would start
like a statement with bodies. -/
theorem stretch_simpleStatement (hscan : Scanned 0 ts) (h : simpleStatement ts = some make)
    (hfirst : firstWord (spanChars ts) ∉ headWords) (k : Nat) :
    Stretch k (List.replicate k ' ' ++ (spanChars ts ++ ['\n']))
      [make ⟨String.ofList (spanChars ts), k⟩] := by
  obtain ⟨t, us, rfl⟩ : ∃ t us, ts = t :: us := by
    cases ts with
    | nil => cases h
    | cons t us => exact ⟨t, us, rfl⟩
  have hnet := simpleStatement_netting h
  have hwhole : Scanned 0 ((t :: us) ++ []) := by rwa [List.append_nil]
  have hpiece : Piece 0 (spanChars (t :: us)) (t :: us) := hwhole.piece (List.cons_ne_nil _ _) hnet
  have hscans := (hpiece.scans (isGap_nil 0)).mono fun _ => EndsLine.endsToken
  obtain ⟨c, u, hchars, hc⟩ := hpiece.start
  have hline : IsLine (spanChars (t :: us)) (t.behind [] :: us) := by
    refine Scans.isLine_of_start (by simpa [fromGap] using hscans) hchars hc ?_
    simpa [fromGap] using hpiece.level [] 0
  have hword : t.kind = .word → t.text ∉ headWords := fun hkind => by
    rwa [firstWord_spanChars hscan hkind] at hfirst
  have hread := @simpleStatements_one k (t.behind [] :: us) (by simpa [fromGap] using hpiece.ordinary [])
  rw [simpleStatement_behind h, Option.map_some] at hread
  refine stretch_simple hline ?_ ?_ hread
  · intro t' ht'
    obtain rfl : t.behind [] = t' := by simpa using ht'
    have hordinary := hnet.ordinary t List.mem_cons_self
    simp only [Lexeme.isOrdinary, Bool.and_eq_true, Bool.not_eq_true'] at hordinary
    refine ⟨hordinary.1, not_sign_of_simpleStatement (simpleStatement_behind h []), fun w hw => ?_⟩
    refine Bool.eq_false_iff.2 fun ht => ?_
    simp only [Token.behind_toLexeme, Lexeme.isWord, Bool.and_eq_true, beq_iff_eq] at ht
    exact hword ht.1 (by simp [headWords, ht.2, hw])
  · intro w hlead hw
    obtain ⟨t', ht', hkind, hmem⟩ := head_of_leadingWord hlead (by simp [headWords, hw])
    obtain rfl : t.behind [] = t' := by simpa [spacedLine] using ht'
    exact hword hkind hmem

/-- A comment is read again where it stands alone on a line. -/
theorem stretch_commentChars {cs : List Char} (h : '\n' ∉ cs) (k : Nat) :
    Stretch k (List.replicate k ' ' ++ ('#' :: cs ++ ['\n'])) [.comment ⟨String.ofList ('#' :: cs), k⟩] := by
  have hstop : StopsGap 0 '#' := {
    not_gap := rfl
    newline := fun hc => by cases hc
    comment := fun _ => rfl
    not_backslash := by decide }
  have hline : IsLine ('#' :: cs) [⟨⟨.comment, '#' :: cs⟩, []⟩] := by
    refine Scans.isLine (fun n hn => ?_) hstop (by decide) rfl
    have hread : lexemeOrComment '#' (cs ++ n) = some (.comment, n) := by
      have hne : ∀ d ∈ cs, d ≠ '\n' := fun d hd heq => h (heq ▸ hd)
      have hall : ∀ d ∈ cs, (d != '\n') = true := fun d hd => by simpa using hne d hd
      have hend : n.dropWhile (· != '\n') = n := by
        cases n with
        | nil => rfl
        | cons d n =>
          obtain rfl := hn d rfl
          rfl
      rw [lexemeOrComment, if_pos rfl, List.dropWhile_append_of_pos hall, hend]
    have hgap : lineGap 0 false ([] ++ '#' :: (cs ++ n)) = ([], '#' :: (cs ++ n)) := hstop.lineGap _
    have htoken := lineTokens_token hgap (by decide) hread
    simpa [depthThrough] using htoken
  exact stretch_comment hline rfl k

end TypedStubs.Syntax
