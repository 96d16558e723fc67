import TypedStubs.Import.Basic
import TypedStubs.Text.Blank

/-! # Reading an import line

A line imports modules, members of one module, or everything from it.  Names are separated by
commas, members may stand in parentheses, and each name may carry an alias.
-/
namespace TypedStubs.Import

/-- Why a line is no import. -/
inductive LineProblem where
  /-- Members are announced and never listed. -/
  | malformed (line : String)
  /-- The line starts like no import. -/
  | notImport (line : String)
  deriving DecidableEq

/-- The wording of a problem. -/
def LineProblem.message : LineProblem → String
  | .malformed line => "malformed import `" ++ line ++ "`"
  | .notImport line => "not an import: `" ++ line ++ "`"

/-- A name and its alias, as they stand between commas. -/
def readAliased (item : String) : String × Option String :=
  match Text.cut " as " item with
  | some (name, asName) => (Text.trim name, some (Text.trim asName))
  | none => (Text.trim item, none)

/-- The imports of members listed in `names`, all from `source`. -/
def readMembers (source names : String) : List Import :=
  let listed := Text.trimChars names.toList
  let bare := Text.dropEndWhile (· == ')') (listed.dropWhile (· == '('))
  if Text.trimChars bare = ['*'] then [.star source]
  else
    ((Text.splitOn ',' (String.ofList bare)).filter (!Text.isAllBlank ·)).map fun item =>
      let (name, asName) := readAliased item
      .member source name asName

/-- The imports that a line makes. -/
def readLine (line : String) : Except LineProblem (List Import) :=
  let line := Text.trim line
  match Text.after? "import " line with
  | some rest => .ok ((Text.splitOn ',' rest).map fun item =>
      let (path, asName) := readAliased item
      .module path asName)
  | none =>
    match Text.after? "from " line with
    | some rest =>
      match Text.cut " import " rest with
      | some (source, names) => .ok (readMembers (Text.trim source) names)
      | none => .error (.malformed line)
    | none => .error (.notImport line)

/-- The imports of several lines; the first line that is no import decides. -/
def readLines (lines : List String) : Except LineProblem (List Import) := do
  return (← lines.mapM readLine).flatten

end TypedStubs.Import
