import TypedStubs.Text.Blank
import TypedStubs.Text.Cut

/-! # The margin of a docstring

A docstring stands in an indented block, and its lines after the first carry the indentation of that
block.  Cleaning takes the common indentation away, trailing blanks of those lines too, and the blank
lines at either end.  Indentation is counted in characters.
-/
namespace TypedStubs.Docstring

/-- How many blanks a line starts with. -/
def indentOf (line : String) : Nat := (line.toList.takeWhile Text.isBlank).length

/-- A line without the first `width` of its leading blanks. -/
def dedent (width : Nat) (line : String) : String :=
  String.ofList (line.toList.drop (min width (indentOf line)))

/-- The least indentation of the lines that are not blank; none counts as no indentation. -/
def margin (lines : List String) : Nat :=
  (((lines.filter (!Text.isAllBlank ·)).map indentOf).min?).getD 0

/-- A line after the first, without the margin and without trailing blanks. -/
def cleanLine (width : Nat) (line : String) : String :=
  if Text.isAllBlank line then "" else Text.trimEnd (dedent width line)

/-- Lines without the blank ones at either end. -/
def trimLines (lines : List String) : List String :=
  ((lines.dropWhile Text.isAllBlank).reverse.dropWhile Text.isAllBlank).reverse

/-- The cleaned lines of a docstring. -/
def cleanLines : List String → List String
  | [] => []
  | first :: rest => trimLines (Text.trimStart first :: rest.map (cleanLine (margin rest)))

/-- A docstring without its margin. -/
def clean (raw : String) : String := Text.join "\n" (cleanLines (Text.lines raw))

end TypedStubs.Docstring
