import TypedStubs.Text.Blank
import TypedStubs.Text.Cut
import TypedStubs.Docstring.Reference

/-! # Settings

What steers a run: which files and declarations are left out, which names are generics, built in or
markers, which decorators stay, and how an ambiguous look-up is decided.  Settings are fixed before
a run starts.
-/
namespace TypedStubs

/-- How several candidates become one answer. -/
inductive MatchPolicy where
  /-- The first candidate is taken. -/
  | first
  /-- A candidate is taken only when it is the only one. -/
  | unique
  deriving DecidableEq, Inhabited

/-- A place in a docstring that may name a class whose constructor has further parameters. -/
structure DocstringPlace where
  /-- Title of the section. -/
  title : String
  /-- Name of the field. -/
  field : String
  deriving DecidableEq

/-- The settings of a run. -/
structure Settings where
  /-- Name of the package that is stubbed; found from the source tree when absent. -/
  rootPackage : Option String
  /-- What the qualified name of a class named in a docstring must start with. -/
  requiredPrefix : Option String
  /-- Parts of relative paths whose files are never stubbed. -/
  excludedPaths : List String
  /-- Simple or qualified names of declarations that are left out. -/
  excludedNames : List String
  /-- Names of attributes that are left out. -/
  excludedAttributes : List String
  /-- Callables that make a logger; an attribute that holds one is left out. -/
  loggerFactories : List String
  /-- Names of parameters that are left out of every signature. -/
  excludedParameters : List String
  /-- Names that a method gives its receiver. -/
  receiverNames : List String
  /-- Module that the generic names are imported from. -/
  genericModule : String
  /-- Names that are imported from that module. -/
  genericTypes : List String
  /-- Names that sources spell differently, each with the name to import. -/
  genericAliases : List (String × String)
  /-- Names that need no import. -/
  builtinTypes : List String
  /-- Generic that marks an attribute of a class. -/
  classVarMarker : String
  /-- The hint of an attribute of unknown type. -/
  unknownType : String
  /-- Modules whose decorators stay. -/
  significantDecorators : List String
  /-- Decorators that stay and need no import. -/
  builtinDecorators : List String
  /-- Qualified names of decorators that never stay. -/
  droppedDecorators : List String
  /-- Decorators that borrow the documentation of another function. -/
  redirectDecorators : List String
  /-- Places that may name a class with further parameters, in the order they are tried. -/
  hiddenParameterPlaces : List DocstringPlace
  /-- What the name of an accessor method starts with. -/
  getterPrefix : String
  /-- Stands on both sides of inline code in docstrings. -/
  inlineCodeDelimiter : Char
  /-- Stands between the components of a qualified name in docstrings. -/
  pathSeparator : Char
  /-- How an ambiguous look-up is decided. -/
  matchPolicy : MatchPolicy
  /-- Import lines that every stub gets. -/
  baselineImports : List String
  /-- Extension of source files. -/
  sourceExtension : String
  /-- Extension of stub files. -/
  interfaceExtension : String
  deriving DecidableEq

namespace Settings

/-- The settings of a run that is given none. -/
def standard : Settings where
  rootPackage := none
  requiredPrefix := none
  excludedPaths := ["tests/", "testing/", "conftest.py", "setup.py"]
  excludedNames := []
  excludedAttributes := [
    "__all__", "__author__", "__doc__", "__module__", "__qualname__", "__slots__", "__version__",
    "_log", "_logger", "log", "logger"]
  loggerFactories := ["logging.getLogger", "getLogger"]
  excludedParameters := []
  receiverNames := ["self", "cls"]
  genericModule := "typing"
  genericTypes := [
    "Any", "AnyStr", "Awaitable", "Callable", "ClassVar", "Collection", "Container", "Dict",
    "Final", "FrozenSet", "Generator", "Generic", "Hashable", "IO", "Iterable", "Iterator", "List",
    "Literal", "Mapping", "MutableMapping", "MutableSequence", "NamedTuple", "NewType", "NoReturn",
    "Optional", "Protocol", "Sequence", "Set", "Sized", "TextIO", "Tuple", "Type", "TypeVar",
    "Union"]
  genericAliases := [("callable", "Callable")]
  builtinTypes := [
    "None", "bool", "bytearray", "bytes", "complex", "dict", "float", "frozenset", "int", "list",
    "memoryview", "object", "range", "set", "slice", "str", "tuple", "type"]
  classVarMarker := "ClassVar"
  unknownType := "Any"
  significantDecorators := ["abc", "enum", "functools", "typing", "typing_extensions"]
  builtinDecorators := ["classmethod", "property", "staticmethod"]
  droppedDecorators := ["functools.cache", "functools.lru_cache", "functools.wraps"]
  redirectDecorators := ["_docstring.copy", "docstring.copy", "_copy_docstring_and_deprecators"]
  hiddenParameterPlaces := [⟨"Other Parameters", "**kwargs"⟩, ⟨"Parameters", "**kwargs"⟩]
  getterPrefix := "get_"
  inlineCodeDelimiter := '\x60'
  pathSeparator := '.'
  matchPolicy := .first
  baselineImports := []
  sourceExtension := "py"
  interfaceExtension := "pyi"

/-- Why settings are refused. -/
inductive Problem where
  /-- Every method would be an accessor. -/
  | emptyGetterPrefix
  /-- A stub would overwrite its source. -/
  | sameExtension
  /-- A place in docstrings has no title. -/
  | emptyTitle
  deriving DecidableEq

/-- The wording of a problem. -/
def Problem.message : Problem → String
  | .emptyGetterPrefix => "getter_prefix must not be empty"
  | .sameExtension => "interface_extension must differ from source_extension"
  | .emptyTitle => "hidden parameter section titles must not be empty"

/-- Settings that can steer a run, or the first reason why they cannot. -/
def validate (s : Settings) : Except Problem Settings :=
  if s.getterPrefix.isEmpty then .error .emptyGetterPrefix
  else if s.interfaceExtension = s.sourceExtension then .error .sameExtension
  else if s.hiddenParameterPlaces.any (Text.isAllBlank ·.title) then .error .emptyTitle
  else .ok s

/-- What the qualified name of a class named in a docstring must start with, if anything. -/
def classPrefix? (s : Settings) : Option String := s.requiredPrefix <|> s.rootPackage

/-- Whether a part of a path excludes a file.  A part that ends in a slash names a directory on the
way to the file; any other one names the whole path or its end. -/
def fragmentExcludes (path fragment : String) : Bool :=
  match Text.before? "/" fragment with
  | some directory => (Text.splitOn '/' path).dropLast.contains directory
  | none => path == fragment || (Text.before? ("/" ++ fragment) path).isSome

/-- Whether a relative path is excluded; backslashes count as slashes. -/
def excludesPath (s : Settings) (path : String) : Bool :=
  let path := String.ofList (path.toList.map fun c => if c = '\\' then '/' else c)
  s.excludedPaths.any (fragmentExcludes path)

/-- Whether a declaration is excluded by its simple or its qualified name. -/
def excludesName (s : Settings) (name qualified : String) : Bool :=
  s.excludedNames.any fun n => n == name || n == qualified

/-- Whether an attribute is excluded by its name. -/
def excludesAttribute (s : Settings) (name : String) : Bool := s.excludedAttributes.contains name

/-- Whether a value is the call of something that makes a logger. -/
def makesLogger (s : Settings) (value : String) : Bool :=
  s.loggerFactories.any fun factory =>
    match Text.after? factory value with
    | some rest => ['('] <+: Text.trimStartChars rest.toList
    | none => false

/-- Whether a name needs no import. -/
def isBuiltin (s : Settings) (name : String) : Bool := s.builtinTypes.contains name

/-- The name under which a generic is imported, if the name is that of a generic. -/
def genericName? (s : Settings) (name : String) : Option String :=
  match s.genericAliases.lookup name with
  | some target => some target
  | none => s.genericTypes.find? (· == name)

/-- Whether a decorator borrows the documentation of another function. -/
def isRedirect (s : Settings) (callee : String) : Bool := s.redirectDecorators.contains callee

/-- Whether a name is one that a method gives its receiver. -/
def isReceiver (s : Settings) (name : String) : Bool := s.receiverNames.contains name

/-- How inline code and qualified names are written in docstrings. -/
def marks (s : Settings) : Docstring.Marks := ⟨s.inlineCodeDelimiter, s.pathSeparator⟩

end Settings
end TypedStubs
