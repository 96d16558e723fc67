import TypedStubs.Hint.Union
import TypedStubs.Source.LiteralType
import TypedStubs.Source.Walk

/-! # What a function returns

A function without return annotation is judged by the statements of its body, nested functions,
classes and lambdas apart: what it returns, whether it yields, and whether it raises.  A walk through the
body that stays out of the returned values collects that, and `inferReturn` judges it.
-/
namespace TypedStubs

open Syntax (Stmt)

/-- What the nodes met so far say of the returned value. -/
structure ReturnSummary where
  /-- The types of the returned values whose form gives it away. -/
  types : List Hint := []
  /-- Whether there is a `yield`, or a returned value of unknown type. -/
  unclear : Bool := false
  /-- Whether there is a `raise`. -/
  raises : Bool := false
  /-- Whether there is a `return`. -/
  returns : Bool := false
  deriving DecidableEq

/-- What a node adds.  A `return` without value returns the empty value. -/
def ReturnSummary.note (found : ReturnSummary) : BodyNode → ReturnSummary
  | .stmt (.returns _ none) =>
    { found with returns := true, types := found.types ++ [.name "None"] }
  | .stmt (.returns _ (some e)) =>
    match literalType e.kind e.text with
    | some type => { found with returns := true, types := found.types ++ [type] }
    | none => { found with returns := true, unclear := true }
  | .stmt (.raises _ _) => { found with raises := true }
  | .expr (.node .yield _ _) => { found with unclear := true }
  | _ => found

/-- The type of the returned value.  What is unclear, or only raising, leaves it open; a body without
any of these returns the empty value. -/
def ReturnSummary.type? (found : ReturnSummary) : Option Hint :=
  if found.unclear || (!found.returns && found.raises) then none
  else if !found.returns then some (.name "None")
  else Hint.unionOf? found.types

/-- Whether a node is a `return`. -/
def BodyNode.isReturn : BodyNode → Bool
  | .stmt (.returns _ _) => true
  | _ => false

/-- The type of what a body returns, if its own statements give it away. -/
def inferReturn (body : List Stmt) : Option Hint :=
  (walk BodyNode.isReturn ReturnSummary.note (body.map .stmt) {}).type?

end TypedStubs
