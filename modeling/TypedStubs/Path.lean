import TypedStubs.Text.Blank
import TypedStubs.Text.Cut
import TypedStubs.Text.Letter

/-! # Paths and module names

A path is a list of components.  Repeated slashes and single dots between components mean nothing; a
leading slash, a leading dot and every pair of dots are components of their own.

The module name of a source file, given relative to the root of its tree, is the name of the root
package, the directories on the way and the stem of the file, with dots between; the file that
initialises a package gives the name of the package.
-/
namespace TypedStubs

namespace Path

/-- A step of a path. -/
inductive Component where
  /-- The root of the file system. -/
  | root
  /-- The directory itself; only at the front. -/
  | here
  /-- The directory above. -/
  | up
  /-- An entry of the directory. -/
  | entry (name : String)
  deriving DecidableEq

/-- The components of a path. -/
def components (path : String) : List Component :=
  let pieces := Text.splitOn '/' path
  let front : List Component := match pieces with
    | "" :: _ :: _ => [.root]
    | "." :: _ => [.here]
    | _ => []
  front ++ pieces.filterMap fun piece =>
    if piece = "" ∨ piece = "." then none
    else if piece = ".." then some .up
    else some (.entry piece)

/-- A component as it is written; the root is written as nothing before its slash. -/
def Component.text : Component → String
  | .root => ""
  | .here => "."
  | .up => ".."
  | .entry name => name

/-- The path of some components. -/
def ofComponents (components : List Component) : String :=
  if components = [.root] then "/" else Text.join "/" (components.map Component.text)

/-- The paths of the directories on the way to what a path leads to, from the inside out. -/
def around (path : String) : List String :=
  let steps := (components path).dropLast
  (List.range steps.length).map fun n => ofComponents (steps.take (steps.length - n))

/-- A path followed by a relative one. -/
def append (base relative : String) : String :=
  if base.isEmpty || base.endsWith "/" then base ++ relative else base ++ "/" ++ relative

/-- The path of the directory around what a path leads to. -/
def parent (path : String) : String :=
  match Text.cutLast '/' path with
  | some (around, _) =>
    let bare := String.ofList (Text.dropEndWhile (· == '/') around.toList)
    if bare.isEmpty then "/" else bare
  | none => ""

/-- The name of the file that a path leads to, if its last step is an entry. -/
def fileName? (path : String) : Option String :=
  match (components path).getLast? with
  | some (.entry name) => some name
  | _ => none

/-- A file name cut at its last dot into stem and extension.  A name that starts with its only dot
has no extension. -/
def cutExtension (name : String) : String × Option String :=
  match Text.cutLast '.' name with
  | some (stem, extension) => if stem.isEmpty then (name, none) else (stem, some extension)
  | none => (name, none)

/-- The extension of the file that a path leads to. -/
def extension? (path : String) : Option String :=
  (fileName? path).bind fun name => (cutExtension name).2

/-- A file name with another extension; an empty one leaves the stem alone. -/
def withExtension (extension name : String) : String :=
  let stem := (cutExtension name).1
  if extension.isEmpty then stem else stem ++ "." ++ extension

/-- The names of the directories on the way to a file, if there is nothing else on it. -/
def directories? (path : String) : Option (List String) :=
  (components path).dropLast.foldr (fun step rest =>
    match step with
    | .entry name => rest.map (name :: ·)
    | .here => rest
    | _ => none) (some [])

end Path

/-- A module of the stubbed package. -/
structure ModuleName where
  /-- Its dotted name. -/
  name : String
  /-- Whether it is the module that initialises a package. -/
  isPackage : Bool
  deriving DecidableEq

/-- The module that a source file holds, given its relative path; a component that is no word makes
it none. -/
def ModuleName.ofPath? (rootPackage : Option String) (path : String) : Option ModuleName := do
  let stem := (Path.cutExtension (← Path.fileName? path)).1
  let isPackage := stem == "__init__"
  let directories ← Path.directories? path
  let root := match rootPackage with
    | some name => Text.splitOn '.' name
    | none => []
  let parts := root ++ directories ++ if isPackage then [] else [stem]
  if !parts.isEmpty && parts.all Text.isWord then some ⟨Text.join "." parts, isPackage⟩ else none

end TypedStubs
