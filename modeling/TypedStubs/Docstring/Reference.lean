import TypedStubs.Docstring.Sections
import TypedStubs.Text.Letter

/-! # Types named in docstrings

A docstring names a type between inline-code marks.  The reference is what stands between the first
and the last mark of a field's type or, for a field without one, of its description.
-/
namespace TypedStubs.Docstring

/-- How inline code and qualified names are written. -/
structure Marks where
  /-- Stands on both sides of inline code. -/
  delimiter : Char
  /-- Stands between the components of a qualified name. -/
  separator : Char
  deriving DecidableEq

/-- A type named in a docstring. -/
structure Reference where
  /-- The full name. -/
  path : String
  /-- Its last component. -/
  name : String
  deriving DecidableEq

/-- The type that a text names. -/
def referenceIn (marks : Marks) (text : String) : Option Reference := do
  let (_, after) ← Text.cutChars [marks.delimiter] text.toList
  let (inside, _) ← Text.cutLastChars marks.delimiter after
  let path := ((Text.trimChars inside).dropWhile (· == '~')).dropWhile (· == marks.separator)
  let name := match Text.cutLastChars marks.separator path with
    | some (_, last) => last
    | none => path
  if Text.isWordChars name then some ⟨String.ofList path, String.ofList name⟩ else none

/-- The type that a field of a section names; a malformed docstring names none. -/
def reference? (marks : Marks) (docstring title field : String) : Option Reference := do
  let found ← (sections docstring).toOption
  let declared ← (← section? found title).field? field
  referenceIn marks (declared.typeText.getD declared.description)

end TypedStubs.Docstring
