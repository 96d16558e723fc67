import TypedStubs.Import.Line
import TypedStubs.Import.Needed
import TypedStubs.Index.Basic
import TypedStubs.Stub.Basic

/-! # The names of a stub

A name that stands in a source means something by the imports of that source.  In the stub it is
spelled so that the imports of the stub give it the same meaning: as it is when it is bound there, by
another name under which its target is imported already, or with an import that is added.

`Scope.spelling` decides on one name against the imports added so far, and `Scope.localize` goes
through a hint.  `Scope.finish` makes the final imports of the stub.
-/
namespace TypedStubs

/-- What the names of a stub are decided by. -/
structure Scope where
  /-- The settings of the run. -/
  settings : Settings
  /-- The source tree. -/
  index : SourceIndex
  /-- The module that the stub is for. -/
  module : SourceModule
  /-- The imports that the stub had before. -/
  existing : List Import
  /-- The names of items that the stub had before. -/
  existingNames : List String

/-- How a name is spelled in a stub, and the import that this needs, if one is missing. -/
structure Spelling where
  /-- The name in the stub. -/
  text : String
  /-- The missing import. -/
  added : Option Import
  deriving DecidableEq

namespace Scope

/-- The scope of a module's stub on top of an existing one. -/
def onto (settings : Settings) (index : SourceIndex) (module : SourceModule)
    (existing : Stub) : Scope :=
  ⟨settings, index, module, existing.imports, existing.items.filterMap (·.name?)⟩

/-- Whether a name is that of a declaration of the module or of an item of the stub. -/
def declares (scope : Scope) (name : String) : Bool :=
  scope.module.declarations.any (·.name == name) || scope.existingNames.contains name

/-- The imports that a stub can draw on when those in `added` were added. -/
def available (scope : Scope) (added : List Import) : List Import :=
  scope.existing ++ scope.module.imports.map (·.absolutize scope.module.package) ++ added

/-- Whether a name is bound by an import. -/
def binds (scope : Scope) (added : List Import) (name : String) : Bool :=
  (scope.available added).any (·.bound? == some name)

/-- The name that the first import of a target binds. -/
def boundTo? (scope : Scope) (added : List Import) (target : String) : Option String :=
  ((scope.available added).find? fun i => !i.isStar && i.qualified == target).bind (·.bound?)

/-- The import of a name in another module. -/
def foreignSite? (scope : Scope) (name : String) : Option ImportSite :=
  scope.settings.matchPolicy.pick ((scope.index.bindingsOf name).filter fun site =>
    !site.stmt.isStar && site.module.name != scope.module.name)

/-- The spelling of a generic name, which is imported from the module of the generics. -/
def genericSpelling (scope : Scope) (added : List Import) (name : String) : Spelling :=
  ⟨name, if scope.binds added name then none
    else some (.member scope.settings.genericModule name none)⟩

/-- The spelling of a dotted name that another module reads through its import. -/
def foreignSpelling (scope : Scope) (added : List Import) (dotted : String)
    (site : ImportSite) : Spelling :=
  let stmt := site.stmt.absolutize site.module.package
  match scope.boundTo? added stmt.qualified with
  | some asName => ⟨Dotted.cons asName (Dotted.uncons dotted).2, none⟩
  | none => ⟨dotted, some stmt⟩

/-- The spelling of the name of a class. -/
def classSpelling (scope : Scope) (added : List Import) (name : String) (c : SourceClass) :
    Spelling :=
  if c.module = scope.module.name then ⟨name, none⟩
  else
    match scope.boundTo? added c.qualified with
    | some asName => ⟨asName, none⟩
    | none => ⟨name, some (.member c.module name none)⟩

/-- The spelling of a dotted name.  The first of these decides: what the stub declares or needs no import
for, a generic, what is bound, an import of another module, and a class. -/
def spelling (scope : Scope) (added : List Import) (dotted : String) : Spelling :=
  let (first, rest) := Dotted.uncons dotted
  if scope.declares first || scope.settings.isBuiltin first then ⟨dotted, none⟩
  else
    match if rest.isNone then scope.settings.genericName? first else none with
    | some generic => scope.genericSpelling added generic
    | none =>
      if scope.binds added first then ⟨dotted, none⟩
      else
        match scope.foreignSite? first with
        | some site => scope.foreignSpelling added dotted site
        | none =>
          if rest.isSome then ⟨dotted, none⟩
          else
            match scope.settings.matchPolicy.pick (scope.index.classesNamed first) with
            | some c => scope.classSpelling added dotted c
            | none => ⟨dotted, none⟩

/-- The name in the stub for a dotted name; the missing import is added. -/
def localizeName (scope : Scope) (dotted : String) : StateM (List Import) String := fun added =>
  let spelled := scope.spelling added dotted
  (spelled.text, added ++ spelled.added.toList)

/-- The hint with the names of the stub; missing imports are added. -/
def localize (scope : Scope) (hint : Hint) : StateM (List Import) Hint :=
  hint.mapNamesM scope.localizeName

/-- The imports that every stub gets; lines that are no imports give none. -/
def baseline (scope : Scope) : List Import :=
  scope.settings.baselineImports.flatMap fun line => (Import.readLine line).toOption.getD []

/-- Whether an import of the module is copied behind the imports in `present`. -/
def isCopied (used : List String) (present : List Import) (i : Import) : Bool :=
  match i.bound? with
  | none => !present.contains i
  | some name =>
    if i.isFuture then !present.contains i
    else used.contains name && !present.any (·.bound? == some name)

/-- The imports in `present` and behind them those of the module that are copied. -/
def withCopied (used : List String) (present : List Import) : List Import → List Import
  | [] => present
  | i :: rest => withCopied used (if isCopied used present i then present ++ [i] else present) rest

/-- The imports of a stub with a given body: those it had, those of the module, and those that were
added, as far as they are needed. -/
def finish (scope : Scope) (added : List Import) (body : String) : List Import :=
  let used := Import.mentioned body
  let present := withCopied used (Import.needed used scope.existing) scope.module.imports
  Import.needed used (present ++ Import.needed used (added ++ scope.baseline))

end Scope
end TypedStubs
