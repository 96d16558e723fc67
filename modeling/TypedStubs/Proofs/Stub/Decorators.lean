import TypedStubs.Proofs.Dotted
import TypedStubs.Proofs.Index.Base
import TypedStubs.Proofs.Stub.Meaning
import TypedStubs.Stub.Emission

/-! # Decorators and imports

Whether a decorator stays is decided by a name that is put together from the import that binds its head:
what that import is the import of, and what follows the head.  This is what the decorator means as long as
the import is absolute and direct, and then a decorator that is to be dropped never stays.

A relative import is taken with its dots.  As long as no name of the settings starts with one, a decorator
that it binds stays by its role alone, whatever it means.  With the import made absolute more of them stay,
or fewer (`Scope.decorators_follow_imports`).  The import of a dotted module is no better: its path is put
in front of what follows the package (`Scope.spelling_of_import_decides`).
-/
namespace TypedStubs

open Dotted (IsSimple head)

instance : (i : Import) → Decidable i.IsAbsolute
  | .module _ _ => inferInstanceAs (Decidable True)
  | .member source _ _ => inferInstanceAs (Decidable (source.toList.head? ≠ some '.'))
  | .star source => inferInstanceAs (Decidable (source.toList.head? ≠ some '.'))

namespace SourceModule

variable {m : SourceModule} {callee full name : String} {i : Import}

/-- The module with its imports made absolute. -/
def absolutized (m : SourceModule) : SourceModule :=
  { m with imports := m.imports.map (·.absolutize m.package) }

/-- What the callee of a decorator means: if imports bind its head, what one of them says, and else no
more than itself. -/
inductive CalleeMeans (m : SourceModule) (callee : String) : String → Prop where
  | unbound (h : ∀ i ∈ m.imports, i.bound? ≠ some (head callee)) : CalleeMeans m callee callee
  | bound {i : Import} (hi : i ∈ m.imports) (hname : i.bound? = some (head callee)) :
    CalleeMeans m callee (Dotted.cons (i.absolutize m.package).target (Dotted.uncons callee).2)

/-- Whether the imports that bind a name are absolute and direct, and give it one meaning. -/
structure ReadsPlainly (m : SourceModule) (name : String) : Prop where
  /-- They are absolute. -/
  absolute : ∀ i ∈ m.imports, i.bound? = some name → i.IsAbsolute
  /-- They are direct. -/
  direct : ∀ i ∈ m.imports, i.bound? = some name → i.IsDirect
  /-- They agree. -/
  agree : ∀ i ∈ m.imports, ∀ j ∈ m.imports, i.bound? = some name → j.bound? = some name →
    i.target = j.target

theorem binding?_absolutized (m : SourceModule) (name : String) :
    m.absolutized.binding? name = (m.binding? name).map (·.absolutize m.package) := by
  have hsame : (fun i : Import => i.bound? == some name) ∘ (fun i : Import => i.absolutize m.package) =
      fun i : Import => i.bound? == some name := by
    funext i
    rw [Function.comp_apply, Import.bound?_absolutize]
  rw [absolutized, binding?, List.find?_map, hsame, binding?]

theorem binding?_eq_some (h : m.binding? name = some i) : i ∈ m.imports ∧ i.bound? = some name :=
  ⟨List.mem_of_find?_eq_some h, by simpa using List.find?_some h⟩

theorem binding?_eq_none : m.binding? name = none ↔ ∀ i ∈ m.imports, i.bound? ≠ some name := by
  simp [binding?]

/-- The name that a decorator is looked up by. -/
def recorded (m : SourceModule) (callee : String) : String :=
  match m.binding? (head callee) with
  | some i => Dotted.cons i.qualified (Dotted.uncons callee).2
  | none => callee

theorem recorded_of_bound (h : m.binding? (head callee) = some i) :
    m.recorded callee = Dotted.cons i.qualified (Dotted.uncons callee).2 := by
  rw [recorded, h]

theorem recorded_of_unbound (h : m.binding? (head callee) = none) : m.recorded callee = callee := by
  rw [recorded, h]

/-- A decorator is looked up by what it means, if imports are read plainly. -/
theorem CalleeMeans.eq_recorded (h : m.CalleeMeans callee full) (hplain : m.ReadsPlainly (head callee)) :
    full = m.recorded callee := by
  cases h with
  | unbound h => exact (recorded_of_unbound (binding?_eq_none.2 h)).symm
  | @bound i hi hname =>
    cases hfirst : m.binding? (head callee) with
    | none => exact absurd hname (binding?_eq_none.1 hfirst i hi)
    | some j =>
      obtain ⟨hj, hjname⟩ := binding?_eq_some hfirst
      rw [recorded_of_bound hfirst, (hplain.absolute i hi hname).absolutize,
        hplain.agree i hi j hj hname hjname, hplain.direct j hj hjname]

end SourceModule

namespace Scope

variable {scope : Scope} {owner : Option SourceClass} {d : Decorator} {i : Import}

/-- The scope with the imports of its module made absolute. -/
def absolutized (scope : Scope) : Scope := { scope with module := scope.module.absolutized }

/-- Whether a callee gives a method of `owner` a role for a property. -/
def givesRole (owner : Option SourceClass) (callee : String) : Bool :=
  (Dotted.uncons callee).2.any StubFunction.roles.contains && owner.any (·.hasProperty (head callee))

/-- Whether a name is one that decorators are dropped by. -/
def drops (scope : Scope) (full : String) : Bool := scope.settings.droppedDecorators.contains full

/-- Whether the module of a name is one whose decorators matter. -/
def matters (scope : Scope) (full : String) : Bool :=
  scope.settings.significantDecorators.contains (head full)

theorem keepsDecorator_of_unbound (h : scope.module.binding? (head d.callee) = none) :
    scope.keepsDecorator owner d = (!scope.drops d.callee &&
      (scope.settings.builtinDecorators.contains d.callee || givesRole owner d.callee)) := by
  rw [keepsDecorator]
  simp only [Dotted.uncons_fst, h, drops, givesRole]
  split <;> simp_all

theorem keepsDecorator_of_bound (h : scope.module.binding? (head d.callee) = some i) :
    scope.keepsDecorator owner d = (!scope.drops (scope.module.recorded d.callee) &&
      (givesRole owner d.callee || scope.matters (scope.module.recorded d.callee))) := by
  rw [keepsDecorator, SourceModule.recorded_of_bound h]
  simp only [Dotted.uncons_fst, h, drops, givesRole, matters]
  split <;> simp_all

/-- No decorator stays that is dropped by the name it is looked up by. -/
theorem not_drops_of_keepsDecorator (h : scope.keepsDecorator owner d = true) :
    scope.drops (scope.module.recorded d.callee) = false := by
  cases hbound : scope.module.binding? (head d.callee) with
  | none =>
    rw [keepsDecorator_of_unbound hbound, Bool.and_eq_true, Bool.not_eq_true'] at h
    rw [SourceModule.recorded_of_unbound hbound]
    exact h.1
  | some i =>
    rw [keepsDecorator_of_bound hbound, Bool.and_eq_true, Bool.not_eq_true'] at h
    exact h.1

/-! ### Imports made absolute -/

theorem absolutized_binding?_of_isAbsolute {name : String}
    (h : ∀ i, scope.module.binding? name = some i → i.IsAbsolute) :
    scope.absolutized.module.binding? name = scope.module.binding? name := by
  rw [absolutized, SourceModule.binding?_absolutized]
  cases hbound : scope.module.binding? name with
  | none => rfl
  | some i => exact congrArg some ((h i hbound).absolutize _)

/-- A decorator is decided on alike if its head is not bound by a relative import. -/
theorem keepsDecorator_absolutized
    (h : ∀ i, scope.module.binding? (head d.callee) = some i → i.IsAbsolute) :
    scope.absolutized.keepsDecorator owner d = scope.keepsDecorator owner d := by
  have hsame := absolutized_binding?_of_isAbsolute h
  simp only [keepsDecorator, Dotted.uncons_fst, hsame]
  rfl

theorem head_of_relative {full : String} (h : full.toList.head? = some '.') : head full = "" := by
  obtain ⟨rest, hrest⟩ := List.head?_eq_some_iff.1 h
  simp [head, hrest]

/-- Whether no name of the settings for decorators is relative. -/
def NamesAbsolute (settings : Settings) : Prop :=
  (∀ name ∈ settings.droppedDecorators, name.toList.head? ≠ some '.') ∧ "" ∉ settings.significantDecorators

/-- A decorator that a relative import binds stays by its role alone. -/
theorem keepsDecorator_of_relative (hsettings : NamesAbsolute scope.settings)
    (hbound : scope.module.binding? (head d.callee) = some i) (hrelative : ¬ i.IsAbsolute) :
    scope.keepsDecorator owner d = givesRole owner d.callee := by
  have hdot : (scope.module.recorded d.callee).toList.head? = some '.' := by
    rw [SourceModule.recorded_of_bound hbound]
    exact Import.head?_qualified hrelative _
  have hdrops : scope.drops (scope.module.recorded d.callee) = false := by
    rw [drops, List.contains_eq_mem, decide_eq_false_iff_not]
    exact fun hmem => hsettings.1 _ hmem hdot
  have hmatters : scope.matters (scope.module.recorded d.callee) = false := by
    rw [matters, head_of_relative hdot, List.contains_eq_mem, decide_eq_false_iff_not]
    exact hsettings.2
  rw [keepsDecorator_of_bound hbound, hdrops, hmatters, Bool.or_false, Bool.not_false, Bool.true_and]

/-- With the import made absolute, more decorators that have no role stay, and fewer that have one. -/
theorem keepsDecorator_absolutized_ne_iff (hsettings : NamesAbsolute scope.settings)
    (hbound : scope.module.binding? (head d.callee) = some i) (hrelative : ¬ i.IsAbsolute) :
    scope.absolutized.keepsDecorator owner d ≠ scope.keepsDecorator owner d ↔
      let full := scope.module.absolutized.recorded d.callee
      if givesRole owner d.callee then scope.drops full = true
      else scope.drops full = false ∧ scope.matters full = true := by
  have habsolute : scope.absolutized.module.binding? (head d.callee) =
      some (i.absolutize scope.module.package) := by
    rw [absolutized, SourceModule.binding?_absolutized, hbound]
    rfl
  have hdecides : scope.absolutized.keepsDecorator owner d = _ := keepsDecorator_of_bound habsolute
  change _ = (!scope.drops (scope.module.absolutized.recorded d.callee) && (_ ||
    scope.matters (scope.module.absolutized.recorded d.callee))) at hdecides
  rw [hdecides, keepsDecorator_of_relative hsettings hbound hrelative]
  cases givesRole owner d.callee <;> simp

/-- The import of a module under its own path binds the package, so a decorator that is read through it
means just what it says; it is to be dropped if the whole path in front of what follows the package is. -/
theorem keepsDecorator_of_path {path : String}
    (hbound : scope.module.binding? (head d.callee) = some (.module path none)) :
    scope.module.CalleeMeans d.callee d.callee ∧
      scope.keepsDecorator owner d =
        (!scope.drops (Dotted.cons path (Dotted.uncons d.callee).2) &&
          (givesRole owner d.callee || scope.matters d.callee)) := by
  obtain ⟨hmem, hname⟩ := SourceModule.binding?_eq_some hbound
  have hhead : head path = head d.callee := Option.some.inj hname
  constructor
  · have hmeans : scope.module.CalleeMeans d.callee _ := .bound hmem hname
    change scope.module.CalleeMeans d.callee (Dotted.cons (head path) _) at hmeans
    rwa [hhead, Dotted.cons_uncons] at hmeans
  · rw [keepsDecorator_of_bound hbound, SourceModule.recorded_of_bound hbound, matters, matters,
      Import.qualified, Dotted.head_cons_path, hhead]

/-- **Decorators stay or go by what they mean, if the imports that bind them are absolute and direct.**
A list of decorators none of which a relative import binds comes out alike with the imports made absolute.
No decorator stays that means one to be dropped, if the imports that bind its head are absolute and
direct and agree.

A decorator that a relative import binds is decided on differently with the import made absolute exactly
if it has a role and is to be dropped, or has none and comes from a module whose decorators matter.  One
that the import of a module under its own path binds means what it says, and is looked up among those to
be dropped with the whole path in front of what follows the package. -/
theorem decorators_follow_imports (scope : Scope) (owner : Option SourceClass) (all : List Decorator) :
    ((∀ d ∈ all, ∀ i, scope.module.binding? (head d.callee) = some i → i.IsAbsolute) →
      scope.absolutized.decorators owner all = scope.decorators owner all) ∧
    (∀ d ∈ all, scope.keepsDecorator owner d = true → scope.module.ReadsPlainly (head d.callee) →
      ∀ full, scope.module.CalleeMeans d.callee full → full ∉ scope.settings.droppedDecorators) ∧
    (NamesAbsolute scope.settings → ∀ d ∈ all, ∀ i,
      scope.module.binding? (head d.callee) = some i → ¬ i.IsAbsolute →
      (scope.absolutized.keepsDecorator owner d ≠ scope.keepsDecorator owner d ↔
        let full := scope.module.absolutized.recorded d.callee
        if givesRole owner d.callee then scope.drops full = true
        else scope.drops full = false ∧ scope.matters full = true)) ∧
    ∀ d ∈ all, ∀ path, scope.module.binding? (head d.callee) = some (.module path none) →
      scope.module.CalleeMeans d.callee d.callee ∧
        scope.keepsDecorator owner d =
          (!scope.drops (Dotted.cons path (Dotted.uncons d.callee).2) &&
            (givesRole owner d.callee || scope.matters d.callee)) := by
  refine ⟨fun habsolute => ?_, fun d _ hkeeps hplain full hmeans => ?_,
    fun hsettings d _ i hbound hrelative => keepsDecorator_absolutized_ne_iff hsettings hbound hrelative,
    fun d _ path hbound => keepsDecorator_of_path hbound⟩
  · have hsame : all.filter (scope.absolutized.keepsDecorator owner) =
        all.filter (scope.keepsDecorator owner) :=
      List.filter_congr fun d hd => keepsDecorator_absolutized (habsolute d hd)
    rw [decorators, decorators, hsame]
  · have hdrops := not_drops_of_keepsDecorator hkeeps
    rw [← hmeans.eq_recorded hplain, drops, List.contains_eq_mem, decide_eq_false_iff_not] at hdrops
    exact hdrops

/-- A module of a package with some imports, where one decorator of the package is to be dropped. -/
def decoratedBy (imports : List Import) : Scope where
  settings := { Settings.standard with
    significantDecorators := ["pkg"]
    droppedDecorators := ["pkg.deco.drop"] }
  index := ⟨[]⟩
  module := ⟨"pkg.m", "pkg/m.py", false, none, imports, []⟩
  existing := []
  existingNames := []

/-- A decorator without arguments. -/
def bare (callee : String) : Decorator := ⟨callee, callee, []⟩

theorem decorators_follow_imports_plain :
    let plain := decoratedBy [.member "pkg.deco" "keep" none, .module "pkg.deco" (some "deco")]
    let other := decoratedBy [.module "pkg.deco" none, .member ".deco" "keep" none]
    plain.absolutized.decorators none [bare "keep", bare "deco.drop"] = ["keep"] ∧
      plain.module.ReadsPlainly "keep" ∧
      (∀ full, plain.module.CalleeMeans "keep" full → full ∉ plain.settings.droppedDecorators) ∧
      other.absolutized.keepsDecorator none (bare "keep") ≠ other.keepsDecorator none (bare "keep") ∧
      other.module.CalleeMeans "pkg.deco.keep" "pkg.deco.keep" := by
  intro plain other
  have habsolute : ∀ i ∈ plain.module.imports, i.IsAbsolute := by decide +kernel
  have hplain : plain.module.ReadsPlainly "keep" :=
    ⟨fun i hi _ => habsolute i hi, by decide +kernel, by decide +kernel⟩
  have hall := decorators_follow_imports plain none [bare "keep", bare "deco.drop"]
  have hsame := hall.1 fun d _ i hbound => habsolute i (SourceModule.binding?_eq_some hbound).1
  have hother := (decorators_follow_imports other none [bare "keep", bare "pkg.deco.keep"]).2.2
  have hnames : NamesAbsolute other.settings := ⟨by decide +kernel, by decide +kernel⟩
  have hkeep : other.module.binding? (head "keep") = some (.member ".deco" "keep" none) := by
    decide +kernel
  have hpath : other.module.binding? (head "pkg.deco.keep") = some (.module "pkg.deco" none) := by
    decide +kernel
  refine ⟨hsame.trans (by decide +kernel), hplain, ?_, ?_, ?_⟩
  · exact hall.2.1 (bare "keep") (by decide +kernel) (by decide +kernel) hplain
  · exact (hother.1 hnames (bare "keep") (by decide +kernel) _ hkeep (by decide +kernel)).2
      (by decide +kernel)
  · exact (hother.2 (bare "pkg.deco.keep") (by decide +kernel) "pkg.deco" hpath).1

/-- **The spelling of an import decides on a decorator.**  The import of a dotted module keeps a decorator
that is to be dropped; and one whose module matters goes if its import is relative, and stays if that is
made absolute. -/
theorem spelling_of_import_decides :
    let scope := decoratedBy [.module "pkg.deco" none, .member ".deco" "keep" none]
    scope.decorators none [bare "pkg.deco.drop", bare "keep"] = ["pkg.deco.drop"] ∧
      "pkg.deco.drop" ∈ scope.settings.droppedDecorators ∧
      scope.module.CalleeMeans "pkg.deco.drop" "pkg.deco.drop" ∧
      scope.absolutized.decorators none [bare "keep"] = ["keep"] := by
  intro scope
  have hmeans : scope.module.CalleeMeans "pkg.deco.drop"
      (Dotted.cons "pkg" (Dotted.uncons "pkg.deco.drop").2) :=
    .bound (i := .module "pkg.deco" none) (by decide +kernel) (by decide +kernel)
  exact ⟨by decide +kernel, by decide +kernel, hmeans, by decide +kernel⟩

end Scope
end TypedStubs
