import TypedStubs.Settings.Basic
import TypedStubs.Source.Basic

/-! # The index of a source tree

All modules of a tree, in the order of their names, and the look-ups over them.  A look-up lists
everything that fits in index order: modules by name, declarations as in the source, methods in the
place of their class.  A policy makes one answer of such a list, and `pick_mem` says that the answer
is on it.
-/
namespace TypedStubs

/-- The answer that a policy makes of candidates. -/
def MatchPolicy.pick {α : Type} (policy : MatchPolicy) (candidates : List α) : Option α :=
  match policy, candidates with
  | .first, candidate :: _ => some candidate
  | .unique, [candidate] => some candidate
  | _, _ => none

theorem MatchPolicy.pick_mem {α : Type} {policy : MatchPolicy} {candidates : List α} {a : α}
    (h : policy.pick candidates = some a) : a ∈ candidates := by
  unfold pick at h
  split at h <;> simp_all

/-- The modules of a source tree. -/
structure SourceIndex where
  /-- The modules, in the order of their names. -/
  modules : List SourceModule

/-- An import and the module that makes it. -/
structure ImportSite where
  /-- The importing module. -/
  module : SourceModule
  /-- The import. -/
  stmt : Import

namespace SourceIndex

/-- The index of some modules; those of one name keep their order. -/
def ofModules (modules : List SourceModule) : SourceIndex :=
  ⟨modules.mergeSort fun a b => decide (a.name ≤ b.name)⟩

/-- The first module of a given name. -/
def module? (index : SourceIndex) (name : String) : Option SourceModule :=
  index.modules.find? (·.name == name)

/-- The classes of all modules. -/
def classes (index : SourceIndex) : List SourceClass := index.modules.flatMap (·.classes)

/-- The functions that a declaration brings: itself, or its methods. -/
def functionsOf : Declaration → List SourceFunction
  | .ofFunction f => [f]
  | .ofClass c => c.methods
  | .ofAttribute _ => []

/-- The functions and methods of all modules. -/
def functions (index : SourceIndex) : List SourceFunction :=
  index.modules.flatMap fun m => m.declarations.flatMap functionsOf

/-- The first class of a given qualified name. -/
def class? (index : SourceIndex) (qualified : String) : Option SourceClass :=
  index.classes.find? (·.qualified == qualified)

/-- The classes of a given simple name. -/
def classesNamed (index : SourceIndex) (name : String) : List SourceClass :=
  index.classes.filter (·.name == name)

/-- The functions of a given simple name whose qualified name holds `needle`. -/
def functionsMatching (index : SourceIndex) (name needle : String) : List SourceFunction :=
  index.functions.filter fun f => f.name == name && Text.holds needle f.qualified

/-- The imports that bind a name. -/
def bindingsOf (index : SourceIndex) (name : String) : List ImportSite :=
  index.modules.flatMap fun m =>
    (m.imports.filter (·.bound? == some name)).map fun i => ⟨m, i⟩

theorem class?_mem {index : SourceIndex} {qualified : String} {c : SourceClass}
    (h : index.class? qualified = some c) : c ∈ index.classes :=
  List.mem_of_find?_eq_some h

theorem classesNamed_subset {index : SourceIndex} {name : String} {c : SourceClass}
    (h : c ∈ index.classesNamed name) : c ∈ index.classes :=
  (List.mem_filter.1 h).1

theorem functionsMatching_subset {index : SourceIndex} {name needle : String}
    {f : SourceFunction} (h : f ∈ index.functionsMatching name needle) : f ∈ index.functions :=
  (List.mem_filter.1 h).1

end SourceIndex
end TypedStubs
