import TypedStubs.Signature.Synthesis
import TypedStubs.Stub.Merge
import TypedStubs.Stub.Render
import TypedStubs.Stub.Scope

/-! # Emitting the declarations of a module

A stub is emitted in three stages, assignments, classes and functions, each of which merges its items
into those that are there.  Emission keeps count of what was emitted and of what failed: a function
whose annotations are no hints fails alone.  The imports that names need are gathered on the way, and
`finish` settles them by the text of the finished items.
-/
namespace TypedStubs

/-- What was emitted. -/
structure Tally where
  /-- Attributes of the module. -/
  attributes : Nat
  /-- Classes. -/
  classes : Nat
  /-- Functions and methods. -/
  functions : Nat
  /-- Qualified names of the functions and methods that failed, in order. -/
  failed : List String
  deriving DecidableEq

/-- Nothing was emitted. -/
def Tally.zero : Tally := ⟨0, 0, 0, []⟩

/-- A stub in the making. -/
structure Emission where
  /-- Its items so far. -/
  items : List StubItem
  /-- The imports added so far. -/
  added : List Import
  /-- What was emitted so far. -/
  tally : Tally

namespace Emission

/-- The start from the items of an existing stub. -/
def start (existing : List StubItem) : Emission := ⟨existing, [], .zero⟩

/-- An emission with a generated item. -/
def merge (e : Emission) (item : StubItem) : Emission :=
  { e with items := mergeItem e.items item }

end Emission

/-- A computation that may add imports. -/
abbrev Adding := StateM (List Import)

namespace Scope

/-- Whether a declaration is left out by name. -/
def excludes (scope : Scope) (name qualified : String) : Bool :=
  scope.settings.excludesName name qualified

/-- Whether an attribute is left out. -/
def skips (scope : Scope) (a : SourceAttribute) : Bool :=
  scope.excludes a.name a.qualified || scope.settings.excludesAttribute a.name ||
    a.value.any scope.settings.makesLogger

/-- Whether a value is a call that makes a type, so that the stub has to repeat it. -/
def makesType (value : String) : Bool :=
  let callee := String.ofList (Text.trimChars (value.toList.takeWhile (· != '(')))
  value.toList.contains '(' && ["TypeVar", "NewType"].contains (Dotted.leaf callee)

/-- The text of a hint with the names of the stub. -/
def localizeText (scope : Scope) (text : String) :
    ExceptT Hint.Problem Adding String := do
  let hint ← liftExcept (Hint.parse text)
  return (← scope.localize hint).render
where
  /-- A result as a computation that adds nothing. -/
  liftExcept {α : Type} (r : Except Hint.Problem α) : ExceptT Hint.Problem Adding α :=
    ExceptT.mk (pure r)

/-- The hint that a text says, if it says one. -/
def readHint? (text : String) : Option Hint := (Hint.parse text).toOption

/-- The hint of the parameter that an attribute of `owner` is assigned from. -/
def assignedHint? (scope : Scope) (owner : SourceClass) (a : SourceAttribute) : Option Hint := do
  let p ← (← owner.constructor?).param? (← a.assignedFrom)
  match p.hintText with
  | some text => readHint? text
  | none => owner.accessorType? scope.settings p.name

/-- The hint of an attribute: its annotation; if `owner` has it by its constructor, the hint of the
parameter it is assigned from, or the type that its accessor tells; the type of its value; or the type
that stands for unknown ones. -/
def attributeHint (scope : Scope) (owner : Option SourceClass) (a : SourceAttribute) : Hint :=
  let known := a.hintText.bind readHint? <|> owner.bind (scope.assignedHint? · a) <|>
    owner.bind (·.accessorType? scope.settings a.name) <|> a.valueType
  known.getD (.name scope.settings.unknownType)

/-- The text of a base class or a named argument; one that is no hint stays as it is. -/
def base (scope : Scope) (base : String) : Adding String := do
  match Text.cut "=" base with
  | some (key, value) =>
    match ← (scope.localizeText (Text.trim value)).run with
    | .ok value => return Text.trim key ++ "=" ++ value
    | .error _ => return base
  | none =>
    match ← (scope.localizeText base).run with
    | .ok text => return text
    | .error _ => return base

/-- Whether a decorator stays: one that needs no import, one that gives a method of `owner` a role for a
property, or one from a module whose decorators matter.  Decorators to be dropped never stay. -/
def keepsDecorator (scope : Scope) (owner : Option SourceClass) (d : Decorator) : Bool :=
  let (first, rest) := Dotted.uncons d.callee
  let bound := scope.module.binding? first
  let qualified := match bound with
    | some i => Dotted.cons i.qualified rest
    | none => d.callee
  if scope.settings.droppedDecorators.contains qualified then false
  else if bound.isNone && scope.settings.builtinDecorators.contains d.callee then true
  else if rest.any StubFunction.roles.contains && owner.any (·.hasProperty first) then true
  else bound.isSome && scope.settings.significantDecorators.contains (Dotted.head qualified)

/-- The decorators that stay. -/
def decorators (scope : Scope) (owner : Option SourceClass) (all : List Decorator) :
    List String :=
  (all.filter (scope.keepsDecorator owner)).map (·.text)

/-- A parameter as it is written in the stub. -/
def paramText (scope : Scope) (p : StubParameter) : Adding ParamText := do
  match p.hint with
  | some hint => return ⟨p.name, p.kind, p.renderWith (some (← scope.localize hint))⟩
  | none => return ⟨p.name, p.kind, p.renderWith none⟩

/-- What a function returns, as it is written in the stub. -/
def returnText (scope : Scope) (f : SourceFunction) :
    ExceptT Hint.Problem Adding (Option String) := do
  match f.returnText with
  | some text => return some (← scope.localizeText text)
  | none =>
    if f.name = "__init__" then return some "None"
    else
      match f.inferredReturn with
      | some hint => return some (← scope.localize hint).render
      | none => return none

/-- The stub of a function, as a method of `owner` if there is one. -/
def function (scope : Scope) (f : SourceFunction) (owner : Option SourceClass) :
    ExceptT Hint.Problem Adding StubFunction := do
  let signature ← localizeText.liftExcept (Signature.synthesize scope.settings scope.index f owner)
  let params ← signature.mapM fun p => (scope.paramText p : Adding ParamText)
  let returns ← scope.returnText f
  return {
    name := f.name
    decorators := scope.decorators owner f.decorators
    isAsync := f.isAsync
    params
    separator := ", "
    returns }

/-- The hint of a class attribute with the generic that marks it as one. -/
def classVarText (scope : Scope) (hint : Hint) : Adding String := do
  if hint.head? = some scope.settings.classVarMarker then return hint.render
  else
    let marker ← scope.localizeName scope.settings.classVarMarker
    return (Hint.subscript marker [hint]).render

/-- Attributes that are not left out, each name once and none that is in `taken`. -/
def freeAttributes (scope : Scope) (taken : List String) :
    List SourceAttribute → List SourceAttribute
  | [] => []
  | a :: rest =>
    if scope.skips a || taken.contains a.name then scope.freeAttributes taken rest
    else a :: scope.freeAttributes (a.name :: taken) rest

/-- An attribute of the stub that has a hint. -/
def hinted (name text : String) : StubItem := .ofAttribute ⟨name, some text, none⟩

/-- The items for the attributes of a class.  Methods and earlier attributes of the same name come
first. -/
def attributeItems (scope : Scope) (c : SourceClass) : Adding (List StubItem) := do
  let taken := c.methods.map (·.name)
  let ofClass := scope.freeAttributes taken c.classAttributes
  let ofInstance := scope.freeAttributes (ofClass.map (·.name) ++ taken) c.instanceAttributes
  let first ← ofClass.mapM fun a => do
    let hint ← scope.localize (scope.attributeHint none a)
    return hinted a.name (← scope.classVarText hint)
  let second ← ofInstance.mapM fun a => do
    let hint ← scope.localize (scope.attributeHint (some c) a)
    return hinted a.name hint.render
  return first ++ second

/-- The items for some functions that are not left out, with the tally of them. -/
def functionItems (scope : Scope) (owner : Option SourceClass) (tally : Tally) :
    List SourceFunction → Adding (List StubFunction × Tally)
  | [] => return ([], tally)
  | f :: rest => do
    if scope.excludes f.name f.qualified then scope.functionItems owner tally rest
    else
      match ← (scope.function f owner).run with
      | .ok built =>
        let (more, tally) ←
          scope.functionItems owner { tally with functions := tally.functions + 1 } rest
        return (built :: more, tally)
      | .error _ =>
        scope.functionItems owner { tally with failed := tally.failed ++ [f.qualified] } rest

/-- The stub of a class, with the tally of it. -/
def classItem (scope : Scope) (tally : Tally) (c : SourceClass) : Adding (StubItem × Tally) := do
  let bases ← c.bases.mapM scope.base
  let attributes ← scope.attributeItems c
  let (methods, tally) ← scope.functionItems (some c) tally c.methods
  return (.ofClass ⟨c.name, scope.decorators none c.decorators, bases⟩
      (attributes ++ methods.map .ofFunction),
    { tally with classes := tally.classes + 1 })

/-- The item for an attribute of the module. -/
def moduleAttribute (scope : Scope) (a : SourceAttribute) : Adding StubItem := do
  match a.value.filter makesType with
  | some value => return .ofAttribute ⟨a.name, none, some value⟩
  | none => return hinted a.name (← scope.localize (scope.attributeHint none a)).render

end Scope

namespace Emission

/-- Emits the assignments of the module. -/
def assignments (scope : Scope) (e : Emission) : Emission :=
  (scope.module.attributes.filter (!scope.skips ·)).foldl (fun e a =>
    let (item, added) := (scope.moduleAttribute a).run e.added
    { e with
      added
      tally := { e.tally with attributes := e.tally.attributes + 1 } }.merge item) e

/-- Emits the classes of the module. -/
def classes (scope : Scope) (e : Emission) : Emission :=
  (scope.module.classes.filter fun c => !scope.excludes c.name c.qualified).foldl (fun e c =>
    let ((item, tally), added) := (scope.classItem e.tally c).run e.added
    { e with added, tally }.merge item) e

/-- Emits the functions of the module. -/
def functions (scope : Scope) (e : Emission) : Emission :=
  let ((built, tally), added) :=
    (scope.functionItems none e.tally scope.module.functions).run e.added
  built.foldl (fun e f => e.merge (.ofFunction f)) { e with added, tally }

/-- The finished stub. -/
def finish (scope : Scope) (e : Emission) : Stub :=
  ⟨scope.finish e.added (Stub.body ⟨[], e.items⟩), e.items⟩

end Emission

/-- The stages of emission. -/
inductive Stage where
  /-- Assignments of the module. -/
  | assignments
  /-- Classes. -/
  | classes
  /-- Functions of the module. -/
  | functions
  deriving DecidableEq

namespace Stage

/-- All stages, in their order. -/
def all : List Stage := [.assignments, .classes, .functions]

/-- Emits what belongs to a stage. -/
def emit (scope : Scope) (e : Emission) : Stage → Emission
  | .assignments => e.assignments scope
  | .classes => e.classes scope
  | .functions => e.functions scope

end Stage

/-- A module's stub on top of an existing one after some stages, and what was emitted. -/
def buildStages (stages : List Stage) (settings : Settings) (index : SourceIndex)
    (module : SourceModule) (existing : Stub) : Stub × Tally :=
  let scope := Scope.onto settings index module existing
  let e := stages.foldl (Stage.emit scope) (.start existing.items)
  (e.finish scope, e.tally)

/-- A module's stub on top of an existing one, and what was emitted. -/
def buildStub (settings : Settings) (index : SourceIndex) (module : SourceModule)
    (existing : Stub) : Stub × Tally :=
  buildStages Stage.all settings index module existing

end TypedStubs
