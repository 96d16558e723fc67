import TypedStubs.Dotted

/-! # Imports

One import binds one local name, or, as a star import, any number of unknown ones.  Here are the
three forms, what each of them binds and stands for, its written form, and how a relative source is
made absolute against a package.
-/
namespace TypedStubs

/-- One imported binding. -/
inductive Import where
  /-- A module under its own name or an alias. -/
  | module (path : String) (asName : Option String)
  /-- A member of a module, whose path may be relative, under its own name or an alias. -/
  | member (source name : String) (asName : Option String)
  /-- Everything a module exports. -/
  | star (source : String)
  deriving DecidableEq, Inhabited

namespace Import

/-- The local name an import binds.  A module without alias binds its first component; a star import
binds no name that is known. -/
def bound? : Import → Option String
  | .module _ (some asName) => some asName
  | .module path none => some (Dotted.head path)
  | .member _ _ (some asName) => some asName
  | .member _ name none => some name
  | .star _ => none

/-- The fully qualified name of what is imported. -/
def qualified : Import → String
  | .module path _ => path
  | .star source => source
  | .member source name _ =>
    if (Text.before? "." source).isSome then source ++ name else source ++ "." ++ name

/-- The module an import draws on. -/
def source : Import → String
  | .module path _ => path
  | .member source _ _ => source
  | .star source => source

/-- Whether this import turns on a feature of the language. -/
def isFuture (i : Import) : Bool := i.source == "__future__"

/-- Whether this is a star import. -/
def isStar : Import → Bool
  | .star _ => true
  | _ => false

/-- Whether an import is there to be imported again: its alias repeats its name. -/
def isReexport : Import → Bool
  | .module path (some asName) => path == asName
  | .member _ name (some asName) => name == asName
  | _ => false

/-- The written form of a name and its alias. -/
def aliased (name : String) : Option String → String
  | some asName => name ++ " as " ++ asName
  | none => name

/-- The written form of an import on a line of its own. -/
def render : Import → String
  | .module path asName => "import " ++ aliased path asName
  | .member source name asName => "from " ++ source ++ " import " ++ aliased name asName
  | .star source => "from " ++ source ++ " import *"

/-- A source path made absolute: the leading dots are the package and, for each dot after the first,
one package further out. -/
def absolutePath (package path : String) : String :=
  let dots := (path.toList.takeWhile (· == '.')).length
  if dots = 0 then path
  else
    let around := (Text.splitOn '.' package).filter (!·.isEmpty)
    let base := around.take (around.length - (dots - 1))
    let rest := String.ofList (path.toList.drop dots)
    Text.join "." (if rest.isEmpty then base else base ++ [rest])

/-- The import with its source made absolute against `package`. -/
def absolutize (package : String) : Import → Import
  | .member source name asName => .member (absolutePath package source) name asName
  | .star source => .star (absolutePath package source)
  | other => other

end Import
end TypedStubs
