import TypedStubs.Docstring.Margin
import TypedStubs.Source.InstanceAttributes
import TypedStubs.Source.Returns
import TypedStubs.Syntax.Block

/-! # Reading source modules

The declarations of a module are its classes, its functions and its assignments to plain names; those
of a class are its methods, its assignments, and the attributes that its constructor gives the
receiver.  A string that stands first is the docstring.  Statements with bodies of their own, such as
conditionals, and classes inside classes declare nothing.
-/
namespace TypedStubs

open Syntax (Expr Stmt)

/-- The contents of a string literal, without the letters before it and its quotation marks. -/
def stringContents? (text : String) : Option String :=
  let body := text.toList.dropWhile fun c =>
    ['r', 'R', 'u', 'U', 'b', 'B', 'f', 'F'].contains c
  let marks : List (List Char) := [['"', '"', '"'], ['\'', '\'', '\''], ['"'], ['\'']]
  let mark := marks.find? fun mark =>
    decide (2 * mark.length ≤ body.length) && mark.isPrefixOf body && mark.isSuffixOf body
  mark.map fun mark =>
    String.ofList ((body.drop mark.length).take (body.length - 2 * mark.length))

/-- The docstring that a statement is, if it starts with a string. -/
def docstringOf? : Stmt → Option String
  | .expression _ (e :: _) =>
    if e.kind = .string ∨ e.kind = .adjacentStrings then
      (stringContents? e.text).map Docstring.clean
    else none
  | _ => none

/-- The docstring of a body, and the statements after it; comments do not count. -/
def splitDocstring (body : List Stmt) : Option String × List Stmt :=
  match body.filter (!·.isComment) with
  | [] => (none, [])
  | first :: rest =>
    match docstringOf? first with
    | some text => (some text, rest)
    | none => (none, first :: rest)

/-- An argument in the call of a decorator. -/
def decoratorArg (e : Expr) : DecoratorArg :=
  if e.kind = .name ∨ e.kind = .attribute then .reference e.text else .other e.text

/-- A decorator. -/
def decoratorOf : Expr → Decorator
  | .node .call text (callee :: args) => ⟨text, callee.text, args.map decoratorArg⟩
  | e => ⟨e.text, e.text, []⟩

/-- A parameter. -/
def parameterOf (p : Syntax.Param) : Parameter := ⟨p.name, p.kind, p.hintText, p.default⟩

/-- A function of `scope`, which is a module or a class of one. -/
def functionOf (module scope : String) (head : Syntax.FunctionHead) (decorators : List Expr)
    (body : List Stmt) : SourceFunction where
  name := head.name
  qualified := scope ++ "." ++ head.name
  module := module
  decorators := decorators.map decoratorOf
  docstring := (splitDocstring body).1
  params := head.params.map parameterOf
  returnText := head.returns
  inferredReturn := inferReturn body
  isAsync := head.isAsync

/-- The attributes that a statement of `scope` assigns. -/
def attributesOf (module scope : String) : Stmt → List SourceAttribute
  | .assignment _ targets typed value =>
    (targets.filter (·.isName)).map fun target => {
      name := target.text
      qualified := scope ++ "." ++ target.text
      module := module
      hintText := typed.map (·.text)
      value := value.map (·.text)
      valueType := value.bind fun e => literalType e.kind e.text
      assignedFrom := none }
  | _ => []

/-- The methods of a class in its body, each with the statements of its own. -/
def methodsOf (module scope : String) (body : List Stmt) : List (SourceFunction × List Stmt) :=
  body.filterMap fun
    | .function head decorators inside =>
      some (functionOf module scope head decorators inside, inside)
    | _ => none

/-- A class of a module. -/
def classOf (module : String) (head : Syntax.ClassHead) (decorators : List Expr)
    (body : List Stmt) : SourceClass :=
  let qualified := module ++ "." ++ head.name
  let (docstring, body) := splitDocstring body
  let methods := methodsOf module qualified body
  let init := (methods.filter fun m => m.1.name == "__init__").getLast?
  { name := head.name
    qualified := qualified
    module := module
    decorators := decorators.map decoratorOf
    docstring := docstring
    bases := head.arguments.filterMap fun
      | .base e => some e.text
      | .comment _ => none
    classAttributes := body.flatMap (attributesOf module qualified)
    instanceAttributes := match init with
      | some (m, inside) => TypedStubs.instanceAttributes qualified m inside
      | none => []
    methods := methods.map (·.1) }

/-- The declarations that a statement of a module makes. -/
def declarationsOf (module : String) : Stmt → List Declaration
  | .classDef head decorators body => [.ofClass (classOf module head decorators body)]
  | .function head decorators body =>
    [.ofFunction (functionOf module module head decorators body)]
  | s => (attributesOf module module s).map .ofAttribute

/-- The module that statements make. -/
def moduleOf (name path : String) (isPackage : Bool) (body : List Stmt) : SourceModule :=
  let (docstring, body) := splitDocstring body
  { name := name
    path := path
    isPackage := isPackage
    docstring := docstring
    imports := body.flatMap fun
      | .importing _ imports => imports
      | _ => []
    declarations := body.flatMap (declarationsOf name) }

/-- The module that a source text makes; one that is not well formed declares nothing. -/
def SourceModule.read (name path : String) (isPackage : Bool) (source : String) : SourceModule :=
  moduleOf name path isPackage ((Syntax.parse? source).getD [])

end TypedStubs
