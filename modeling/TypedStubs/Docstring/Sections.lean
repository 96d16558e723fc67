import TypedStubs.Docstring.Margin
import TypedStubs.Text.Case

/-! # Sections of a docstring

A structured docstring has titled sections, each title underlined with dashes.  In a section the
lines that are indented no deeper than its first one start a field, `name : type`, and the deeper
lines describe the field above them.  A docstring is malformed when a line of dashes has no title
above it.
-/
namespace TypedStubs.Docstring

/-- One entry of a section. -/
structure Field where
  /-- The names it declares; `x, y : float` declares two. -/
  names : List String
  /-- The text after the colon, if there is any. -/
  typeText : Option String
  /-- The deeper lines below it, trimmed and joined. -/
  description : String
  deriving DecidableEq

/-- A titled section. -/
structure Section where
  /-- Title as written. -/
  title : String
  /-- Its fields, in order. -/
  fields : List Field
  deriving DecidableEq

/-- A line of dashes without a title above it, by its number from one. -/
structure OrphanUnderline where
  /-- Number of the line. -/
  line : Nat
  deriving DecidableEq

/-- The wording of the problem. -/
def OrphanUnderline.message (problem : OrphanUnderline) : String :=
  "underline without a section title on line " ++ toString problem.line

/-- Whether a line underlines a title: at least three dashes and nothing else but blanks around. -/
def isUnderline (line : String) : Bool :=
  let dashes := Text.trimChars line.toList
  decide (3 ≤ dashes.length) && dashes.all (· == '-')

/-- A stretch of a docstring: a title, and the lines below its underline up to the next title. -/
structure Stretch where
  /-- Title, trimmed. -/
  title : String
  /-- Lines below the underline. -/
  lines : List String

/-- The lines before the first title and the stretches after it; `number` is the number of the first
line given. -/
def stretches (number : Nat) :
    List String → Except OrphanUnderline (List String × List Stretch)
  | [] => .ok ([], [])
  | [line] => if isUnderline line then .error ⟨number⟩ else .ok ([line], [])
  | line :: below :: rest => do
    if isUnderline line then throw ⟨number⟩
    else if !Text.isAllBlank line && isUnderline below then
      let (content, more) ← stretches (number + 2) rest
      return ([], ⟨Text.trim line, content⟩ :: more)
    else
      let (content, more) ← stretches (number + 1) (below :: rest)
      return (line :: content, more)

/-- The field that a header declares, still without description. -/
def fieldOf (header : String) : Field :=
  let (names, typeText) :=
    match Text.cut " : " header with
    | some (names, type) => (names, some (Text.trim type))
    | none => (Text.trimEnd (String.ofList (Text.dropEndWhile (· == ':') header.toList)), none)
  { names := ((Text.splitOn ',' names).map Text.trim).filter (!·.isEmpty)
    typeText := typeText.filter (!·.isEmpty)
    description := "" }

/-- The fields that lines make when those indented at most `base` start a field.  Deeper lines before
the first such line describe nothing. -/
def fieldsFrom (base : Nat) : List String → List Field
  | [] => []
  | line :: rest =>
    let deeper := rest.takeWhile fun l => decide (base < indentOf l)
    let after := rest.dropWhile fun l => decide (base < indentOf l)
    if base < indentOf line then fieldsFrom base after
    else
      { fieldOf (Text.trim line) with description := Text.join "\n" (deeper.map Text.trim) } ::
        fieldsFrom base after
termination_by lines => lines.length
decreasing_by
  all_goals
    have := (List.dropWhile_suffix (l := rest) fun l => decide (base < indentOf l)).length_le
    simp only [List.length_cons]
    omega

/-- The fields of a section, from the lines below its underline. -/
def fieldsOf (lines : List String) : List Field :=
  match lines.filter (!Text.isAllBlank ·) with
  | [] => []
  | first :: rest => fieldsFrom (indentOf first) (first :: rest)

/-- The sections of a docstring. -/
def sections (text : String) : Except OrphanUnderline (List Section) := do
  let (_, found) ← stretches 1 (Text.lines text)
  return found.map fun stretch => ⟨stretch.title, fieldsOf stretch.lines⟩

/-- A title with single spaces and in lower case, as titles are compared. -/
def normalTitle (title : String) : String :=
  let words := (Text.splitWhere Text.isBlank title.toList).filter (!·.isEmpty)
  Text.lower (Text.join " " (words.map String.ofList))

/-- The first section with the given title. -/
def section? (found : List Section) (title : String) : Option Section :=
  found.find? fun s => normalTitle s.title == normalTitle title

/-- The first field of a section that declares `name`. -/
def Section.field? (s : Section) (name : String) : Option Field :=
  s.fields.find? (·.names.contains name)

end TypedStubs.Docstring
