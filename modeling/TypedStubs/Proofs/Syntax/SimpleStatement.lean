import TypedStubs.Proofs.Syntax.Balance
import TypedStubs.Proofs.Syntax.Reading
import TypedStubs.Syntax.SimpleStatement
import Mathlib.Data.List.TakeWhile

/-! # Statements on one line -/
namespace TypedStubs.Syntax

open Rule

/-- The words that start statements of their own, other than expressions. -/
def statementWords : List String :=
  ["import", "from", "pass", "break", "continue", "return", "raise", "del", "assert", "global",
    "nonlocal", "type", "print"]

/-- What starts with no such word is an expression or an assignment. -/
theorem simpleStatement_of_other {t : Token} {ts : List Token}
    (h : ∀ w ∈ statementWords, t.isWord w = false) :
    simpleStatement (t :: ts) = wholeStatement expressionStatement (t :: ts) := by
  simp only [statementWords, List.forall_mem_cons] at h
  obtain ⟨h1, h2, h3, h4, h5, h6, h7, h8, h9, h10, h11, h12, h13, -⟩ := h
  simp only [simpleStatement, h1, h2, h3, h4, h5, h6, h7, h8, h9, h10, h11, h12, h13, Bool.or_false,
    Bool.false_eq_true, if_false]

theorem wholeStatement_eq_some {r : Rule (Extent → Stmt)} {ts : List Token} {make : Extent → Stmt} :
    wholeStatement r ts = some make ↔ r.read ts = some (make, []) := by
  unfold wholeStatement
  split
  · next h => simp [h]
  · next h =>
    refine ⟨fun hn => (by cases hn), fun hr => ?_⟩
    exact absurd hr (h make)

theorem statementsBetween_one {column : Nat} {ts : List Token} (h : ∀ t ∈ ts, t.isSymbol ";" = false) :
    statementsBetween column ts =
      (simpleStatement ts).map fun make => [make ⟨String.ofList (spanChars ts), column⟩] := by
  have hall : ∀ t ∈ ts, (!t.isSymbol ";") = true := fun t ht => by simp [h t ht]
  have htake : ts.takeWhile (!·.isSymbol ";") = ts := List.takeWhile_eq_self_iff.2 hall
  have hdrop : ts.dropWhile (!·.isSymbol ";") = [] := List.dropWhile_eq_nil_iff.2 hall
  rw [statementsBetween]
  split
  · next semicolon t more heq =>
    rw [hdrop] at heq
    cases heq
  · rw [htake]
    cases simpleStatement ts <;> rfl

/-- A line without semicolons and comments is one statement. -/
theorem simpleStatements_one {column : Nat} {ts : List Token} (h : ∀ t ∈ ts, t.isOrdinary = true) :
    simpleStatements column ts =
      (simpleStatement ts).map fun make => [make ⟨String.ofList (spanChars ts), column⟩] := by
  simp only [Lexeme.isOrdinary, Bool.and_eq_true, Bool.not_eq_true'] at h
  have hall : ∀ t ∈ ts, (!t.isComment) = true := fun t ht => by simp [(h t ht).1]
  rw [simpleStatements, List.takeWhile_eq_self_iff.2 hall, List.dropWhile_eq_nil_iff.2 hall,
    statementsBetween_one fun t ht => (h t ht).2]
  cases simpleStatement ts <;> rfl

end TypedStubs.Syntax
