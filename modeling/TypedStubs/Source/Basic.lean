import TypedStubs.Hint.Basic
import TypedStubs.Syntax.Tree

/-! # Source modules

What a source file declares, as far as stubs are concerned: its imports and its classes, functions and
assignments in order, with their annotations and defaults as written.  A module never changes once it
was read.
-/
namespace TypedStubs

/-- An argument in the call of a decorator. -/
inductive DecoratorArg where
  /-- A dotted name. -/
  | reference (path : String)
  /-- Anything else, as written. -/
  | other (text : String)
  deriving DecidableEq

/-- A decorator of a class or a function. -/
structure Decorator where
  /-- The whole expression. -/
  text : String
  /-- The expression without the arguments of a call. -/
  callee : String
  /-- The arguments, when it is called. -/
  args : List DecoratorArg
  deriving DecidableEq

/-- A parameter of a function. -/
structure Parameter where
  /-- Name without stars; a marker has its own sign. -/
  name : String
  /-- What the slot is for. -/
  kind : Syntax.ParamKind
  /-- Annotation as written. -/
  hintText : Option String
  /-- Default as written. -/
  default : Option String
  deriving DecidableEq, Inhabited

namespace Parameter

/-- Whether this is one of the two markers. -/
def isMarker (p : Parameter) : Bool :=
  p.kind == .positionalOnlyMarker || p.kind == .keywordOnlyMarker

/-- Whether this takes any number of arguments. -/
def isVariadic (p : Parameter) : Bool := p.kind == .varPositional || p.kind == .varKeyword

end Parameter

/-- A function or a method. -/
structure SourceFunction where
  /-- Simple name. -/
  name : String
  /-- Name with its module and its class. -/
  qualified : String
  /-- Module that declares it. -/
  module : String
  /-- Its decorators, in order. -/
  decorators : List Decorator
  /-- Its docstring without margin. -/
  docstring : Option String
  /-- Its parameters, in order. -/
  params : List Parameter
  /-- Return annotation as written. -/
  returnText : Option String
  /-- The hint that its `return` statements suggest. -/
  inferredReturn : Option Hint
  /-- Whether it is asynchronous. -/
  isAsync : Bool
  deriving DecidableEq

/-- The first parameter with a given name. -/
def SourceFunction.param? (f : SourceFunction) (name : String) : Option Parameter :=
  f.params.find? (·.name == name)

/-- An assignment to a name, or to an attribute of the receiver. -/
structure SourceAttribute where
  /-- Simple name. -/
  name : String
  /-- Name with its module and its class. -/
  qualified : String
  /-- Module that declares it. -/
  module : String
  /-- Annotation as written. -/
  hintText : Option String
  /-- Value as written. -/
  value : Option String
  /-- The hint that a literal value suggests. -/
  valueType : Option Hint
  /-- The parameter of the constructor that the value is taken from. -/
  assignedFrom : Option String
  deriving DecidableEq

/-- A class. -/
structure SourceClass where
  /-- Simple name. -/
  name : String
  /-- Name with its module. -/
  qualified : String
  /-- Module that declares it. -/
  module : String
  /-- Its decorators, in order. -/
  decorators : List Decorator
  /-- Its docstring without margin. -/
  docstring : Option String
  /-- Its base classes and named arguments as written. -/
  bases : List String
  /-- Assignments in its body. -/
  classAttributes : List SourceAttribute
  /-- Attributes that its constructor gives the receiver. -/
  instanceAttributes : List SourceAttribute
  /-- Its methods, in order. -/
  methods : List SourceFunction
  deriving DecidableEq

namespace SourceClass

/-- The first method with a given name. -/
def method? (c : SourceClass) (name : String) : Option SourceFunction :=
  c.methods.find? (·.name == name)

/-- The constructor that the class itself declares. -/
def constructor? (c : SourceClass) : Option SourceFunction := c.method? "__init__"

/-- Whether a method with a given name is a property. -/
def hasProperty (c : SourceClass) (name : String) : Bool :=
  c.methods.any fun m => m.name == name && m.decorators.any (·.callee == "property")

end SourceClass

/-- A declaration of a module. -/
inductive Declaration where
  /-- A class. -/
  | ofClass (c : SourceClass)
  /-- A function. -/
  | ofFunction (f : SourceFunction)
  /-- An assignment. -/
  | ofAttribute (a : SourceAttribute)
  deriving DecidableEq

/-- The name that a declaration binds. -/
def Declaration.name : Declaration → String
  | .ofClass c => c.name
  | .ofFunction f => f.name
  | .ofAttribute a => a.name

/-- A source file. -/
structure SourceModule where
  /-- Dotted name. -/
  name : String
  /-- Path relative to the root of the source tree. -/
  path : String
  /-- Whether it initialises a package. -/
  isPackage : Bool
  /-- Its docstring without margin. -/
  docstring : Option String
  /-- Its imports, in order. -/
  imports : List Import
  /-- Its declarations, in order. -/
  declarations : List Declaration
  deriving DecidableEq

namespace SourceModule

/-- The classes of a module. -/
def classes (m : SourceModule) : List SourceClass :=
  m.declarations.filterMap fun
    | .ofClass c => some c
    | _ => none

/-- The functions of a module that belong to no class. -/
def functions (m : SourceModule) : List SourceFunction :=
  m.declarations.filterMap fun
    | .ofFunction f => some f
    | _ => none

/-- The assignments of a module. -/
def attributes (m : SourceModule) : List SourceAttribute :=
  m.declarations.filterMap fun
    | .ofAttribute a => some a
    | _ => none

/-- The first import that binds a name. -/
def binding? (m : SourceModule) (name : String) : Option Import :=
  m.imports.find? (·.bound? == some name)

/-- The package that relative imports start from. -/
def package (m : SourceModule) : String :=
  if m.isPackage then m.name else (Dotted.owner? m.name).getD ""

end SourceModule
end TypedStubs
