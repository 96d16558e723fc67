import TypedStubs.Stub.Basic
import TypedStubs.Syntax.Block
import TypedStubs.Text.Blank

/-! # Reading stubs

A stub is read off the statements of its text.  Imports at the top, assignments to one name, classes
and functions are taken apart; statements that stand for an empty body are dropped; everything else,
comments too, is carried along, less the indentation of its first line.

Indentation is counted in bytes, and a line whose indentation would have to be cut inside a blank
cannot be read.
-/
namespace TypedStubs.Stub

open Syntax (Expr Stmt)

/-- Why a text is not read as a stub. -/
inductive Problem where
  /-- The text is not well formed. -/
  | malformed
  /-- The indentation of a line ends inside one of its blanks. -/
  | splitBlank
  deriving DecidableEq

/-- The wording of a problem. -/
def Problem.message : Problem → String
  | .malformed => "existing stub has syntax errors"
  | .splitBlank => "indentation ends inside a blank"

/-- A line without its leading blanks, as far as they fit into `width` bytes. -/
def cutIndent (width : Nat) : List Char → Except Problem (List Char)
  | [] => .ok []
  | c :: cs =>
    if width = 0 || !Text.isBlank c then .ok (c :: cs)
    else if c.utf8Size ≤ width then cutIndent (width - c.utf8Size) cs
    else .error .splitBlank

/-- The text of a statement without the indentation that it stands in. -/
def dedented (place : Syntax.Extent) : Except Problem String :=
  match Text.lines place.text with
  | [] => .ok ""
  | first :: rest => do
    let rest ← rest.mapM fun line => String.ofList <$> cutIndent place.column line.toList
    return Text.join "\n" (first :: rest)

/-- A statement that is carried along. -/
def carried (place : Syntax.Extent) : Except Problem (List StubItem) := do
  return [.verbatim (← dedented place)]

/-- A parameter; markers have no name. -/
def paramOf (p : Syntax.Param) : ParamText :=
  let isMarker := p.kind == .positionalOnlyMarker || p.kind == .keywordOnlyMarker
  ⟨if isMarker then "" else p.name, p.kind, p.text⟩

/-- A function. -/
def functionOf (head : Syntax.FunctionHead) (decorators : List Expr) : StubFunction where
  name := head.name
  decorators := decorators.map (·.text)
  isAsync := head.isAsync
  params := head.params.map paramOf
  separator := head.between.getD ", "
  returns := head.returns

/-- What stands before the items of a class. -/
def classOf (head : Syntax.ClassHead) (decorators : List Expr) : StubClass where
  name := head.name
  decorators := decorators.map (·.text)
  bases := head.arguments.map fun
    | .base e => e.text
    | .comment text => text

mutual
/-- The items that a statement makes. -/
def itemsOf : Stmt → Except Problem (List StubItem)
  | .expression place values =>
    if values.head?.any (·.kind == .ellipsis) then .ok [] else carried place
  | .assignment place targets typed value =>
    match targets with
    | [target] =>
      if target.isName then
        .ok [.ofAttribute ⟨target.text, typed.map (·.text), value.map (·.text)⟩]
      else carried place
    | _ => carried place
  | .passes _ => .ok []
  | .function head decorators _ => .ok [.ofFunction (functionOf head decorators)]
  | .classDef head decorators body => do
    return [.ofClass (classOf head decorators) (← itemsOfAll body)]
  | .returns place _ | .raises place _ | .importing place _ | .plain place _
  | .compound place _ | .comment place => carried place
  | .header _ => .ok []

/-- The items that statements make. -/
def itemsOfAll : List Stmt → Except Problem (List StubItem)
  | [] => .ok []
  | s :: body => do
    let items ← itemsOf s
    return items ++ (← itemsOfAll body)
end

/-- The imports that a statement at the top makes. -/
def importsOf : Stmt → List Import
  | .importing _ imports => imports
  | _ => []

/-- Whether a statement makes imports. -/
def isImporting : Stmt → Bool
  | .importing _ _ => true
  | _ => false

/-- The stub that a text is. -/
def parse (text : String) : Except Problem Stub :=
  match Syntax.parse? text with
  | none => .error .malformed
  | some body => do
    return ⟨body.flatMap importsOf, ← itemsOfAll (body.filter (!isImporting ·))⟩

end TypedStubs.Stub
