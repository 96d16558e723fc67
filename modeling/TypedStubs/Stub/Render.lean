import TypedStubs.Import.Block
import TypedStubs.Stub.Basic
import TypedStubs.Text.Blank

/-! # Writing stubs

A stub is written as its import block, an empty line, and its items.  Classes are set off by empty
lines, and the items of a class are indented by four spaces more than the class.  A stub is written
line by line; each line ends with a line feed.
-/
namespace TypedStubs

/-- What the items of a class are indented by. -/
def indentStep : String := "    "

/-- The parameters of a function in their parentheses.  When the separator breaks the line, each
parameter has a line of its own, indented as the separator says, and a comma stands after the last
one. -/
def StubFunction.paramsText (f : StubFunction) (indent : String) : String :=
  let listed := Text.join f.separator (f.params.map (·.text))
  match Text.cutLast '\n' f.separator with
  | some (_, inner) =>
    if f.params.isEmpty then "(" ++ listed ++ ")"
    else "(\n" ++ inner ++ listed ++ ",\n" ++ indent ++ ")"
  | none => "(" ++ listed ++ ")"

/-- The line of an attribute. -/
def StubAttribute.line (a : StubAttribute) : String :=
  match a.hintText, a.value with
  | some hint, some value => a.name ++ ": " ++ hint ++ " = " ++ value
  | some hint, none => a.name ++ ": " ++ hint
  | none, some value => a.name ++ " = " ++ value
  | none, none => a.name ++ ": ..."

/-- The lines of decorators. -/
def decoratorLines (indent : String) (decorators : List String) : List String :=
  decorators.map fun d => indent ++ "@" ++ d

/-- The line that starts a function and is all of it. -/
def StubFunction.line (indent : String) (f : StubFunction) : String :=
  indent ++ (if f.isAsync then "async " else "") ++ "def " ++ f.name ++ f.paramsText indent ++
    (match f.returns with
      | some returns => " -> " ++ returns
      | none => "") ++ ": ..."

/-- The line that starts a class, up to its colon. -/
def StubClass.line (indent : String) (head : StubClass) : String :=
  indent ++ "class " ++ head.name ++
    (if head.bases.isEmpty then "" else "(" ++ Text.join ", " head.bases ++ ")") ++ ":"

mutual
/-- The lines of an item. -/
def StubItem.lines (indent : String) : StubItem → List String
  | .ofAttribute a => [indent ++ a.line]
  | .ofClass head items =>
    decoratorLines indent head.decorators ++
      if items.isEmpty then [head.line indent ++ " ..."]
      else head.line indent :: itemLines (indent ++ indentStep) items
  | .ofFunction f => decoratorLines indent f.decorators ++ [f.line indent]
  | .verbatim text =>
    (Text.lines text).map fun line => if Text.isAllBlank line then "" else indent ++ line

/-- The lines of items, with empty ones around classes. -/
def itemLines (indent : String) : List StubItem → List String
  | [] => []
  | item :: rest =>
    item.lines indent ++
      match rest with
      | [] => []
      | next :: _ =>
        (if item.isClass || next.isClass then [""] else []) ++ itemLines indent rest
end

/-- Lines, each with its line feed. -/
def unlines (lines : List String) : String := String.join (lines.map (· ++ "\n"))

namespace Stub

/-- The items of a stub as text. -/
def body (stub : Stub) : String := unlines (itemLines "" stub.items)

/-- A stub as text. -/
def render (stub : Stub) : String :=
  unlines (Import.block stub.imports) ++
    (if stub.imports.isEmpty || stub.items.isEmpty then "" else "\n") ++ stub.body

end Stub
end TypedStubs
