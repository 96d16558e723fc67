import TypedStubs.Source.Basic
import TypedStubs.Source.LiteralType
import TypedStubs.Source.Walk

/-! # Attributes that a constructor gives its receiver

The receiver is the first parameter of the constructor, if that is an ordinary one.  Each assignment
to one of its attributes, outside nested functions, classes and lambdas, declares the attribute; the
first one counts.  Of several targets the last one is given the value itself, and an annotation
belongs to the first.
-/
namespace TypedStubs

open Syntax (Expr Stmt)

/-- One target of an assignment, with what belongs to it. -/
structure TargetAssignment where
  /-- The target. -/
  target : Expr
  /-- The annotation. -/
  typed : Option Expr
  /-- The value. -/
  value : Option Expr

/-- The targets of an assignment, each with what belongs to it. -/
def targetAssignments (typed value : Option Expr) : List Expr → List TargetAssignment
  | [] => []
  | [target] => [⟨target, typed, value⟩]
  | target :: more => ⟨target, typed, none⟩ :: targetAssignments none value more

/-- The targets that a node assigns, in the order of the source. -/
def BodyNode.assigned : BodyNode → List TargetAssignment
  | .stmt (.assignment _ targets typed value) => targetAssignments typed value targets
  | _ => []

/-- The attribute of `receiver` that a target names. -/
def receiverAttribute? (receiver : String) : Expr → Option String
  | .node .attribute _ [object, member] =>
    if object.text = receiver then some member.text else none
  | _ => none

/-- The attribute that an assignment declares in the constructor `init` of the class `scope`. -/
def declaredAttribute? (scope : String) (init : SourceFunction) (receiver : String)
    (a : TargetAssignment) : Option SourceAttribute := do
  let name ← receiverAttribute? receiver a.target
  let copied := (a.value.filter (·.isName)).map (·.text)
  return {
    name
    qualified := scope ++ "." ++ name
    module := init.module
    hintText := a.typed.map (·.text)
    value := a.value.map (·.text)
    valueType := a.value.bind fun e => literalType e.kind e.text
    assignedFrom := copied.filter fun name => (init.param? name).isSome }

/-- `kept` with an attribute at its end, unless there is one of its name. -/
def addAttribute (kept : List SourceAttribute) (a : SourceAttribute) : List SourceAttribute :=
  if kept.any (·.name == a.name) then kept else kept ++ [a]

/-- The attributes met so far, with those that a node declares. -/
def noteAttributes (scope : String) (init : SourceFunction) (receiver : String)
    (kept : List SourceAttribute) (n : BodyNode) : List SourceAttribute :=
  (n.assigned.filterMap (declaredAttribute? scope init receiver)).foldl addAttribute kept

/-- The attributes that the constructor `init` of the class `scope` gives its receiver. -/
def instanceAttributes (scope : String) (init : SourceFunction) (body : List Stmt) :
    List SourceAttribute :=
  match init.params with
  | receiver :: _ =>
    if receiver.kind = .positional then
      walk (fun _ => false) (noteAttributes scope init receiver.name) (body.map .stmt) []
    else []
  | [] => []

end TypedStubs
