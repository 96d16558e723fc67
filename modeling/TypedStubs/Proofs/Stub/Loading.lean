import TypedStubs.Proofs.Stub.Finish
import TypedStubs.Proofs.Stub.Sound

/-! # Generated stubs load

The reader of hints takes texts that are no expressions, so a stub with such an annotation is refused when it is read
again (`unwritten_hint_refused`).  Where all sources can be written, every stub that is generated is read again with
the items and the imports that it was given (`generated_stub_loads`).

What every stage of an emission keeps is that the items are generated of writable pieces and the added imports are
usable (`Emission.Sound`).
-/
namespace TypedStubs

open Syntax

/-! ### Modules that were read -/

/-- A module that was read off a well-formed source. -/
def SourceModule.IsLowered (m : SourceModule) : Prop :=
  ∃ source, (parse? source).isSome = true ∧ m = .read m.name m.path m.isPackage source

namespace SourceModule

variable {m : SourceModule}

theorem isLowered_read {source : String} (h : (parse? source).isSome = true) (name path : String)
    (isPackage : Bool) : (SourceModule.read name path isPackage source).IsLowered := ⟨source, h, rfl⟩

theorem IsLowered.kept (h : m.IsLowered) : m.Kept := by
  obtain ⟨source, hsome, heq⟩ := h
  obtain ⟨body, hparse⟩ := Option.isSome_iff_exists.1 hsome
  have hkept := kept_read hparse m.name m.path m.isPackage
  rwa [← heq] at hkept

/-- A module whose declarations are kept as they were read, and can be written. -/
structure Sound (m : SourceModule) : Prop where
  /-- What it keeps of the source can be written again. -/
  kept : m.Kept
  /-- What is made of it can be written. -/
  writable : m.isWritable = true

namespace Sound

variable (h : m.Sound)
include h

theorem isOrigin : Import.isOrigin m.name = true := (isWritable_iff.1 h.writable).1

theorem imports : ∀ i ∈ m.imports, i.isReadable = true ∧ (i.absolutize m.package).isUsable = true :=
  (isWritable_iff.1 h.writable).2.1

theorem declaration {d : Declaration} (hd : d ∈ m.declarations) : d.Kept m.name ∧ d.isWritable = true :=
  ⟨h.kept d hd, (isWritable_iff.1 h.writable).2.2 d hd⟩

theorem ofClass {c : SourceClass} (hc : c ∈ m.classes) : c.Sound ∧ c.module = m.name := by
  obtain ⟨d, hd, hdc⟩ := List.mem_filterMap.1 hc
  obtain ⟨hkept, hwritable⟩ := h.declaration hd
  cases d with
  | ofClass c' =>
    obtain rfl := Option.some.inj hdc
    exact ⟨⟨hkept.1, hwritable⟩, hkept.2⟩
  | ofFunction | ofAttribute => cases hdc

theorem ofFunction {f : SourceFunction} (hf : f ∈ m.functions) : f.Sound := by
  obtain ⟨d, hd, hdf⟩ := List.mem_filterMap.1 hf
  obtain ⟨hkept, hwritable⟩ := h.declaration hd
  cases d with
  | ofFunction f' =>
    obtain rfl := Option.some.inj hdf
    exact ⟨hkept, hwritable⟩
  | ofClass | ofAttribute => cases hdf

theorem ofAttribute {a : SourceAttribute} (ha : a ∈ m.attributes) :
    (Declaration.ofAttribute a).Kept m.name ∧ a.isWritable = true := by
  obtain ⟨d, hd, hda⟩ := List.mem_filterMap.1 ha
  cases d with
  | ofAttribute a' =>
    obtain rfl := Option.some.inj hda
    exact h.declaration hd
  | ofClass | ofFunction => cases hda

end Sound

end SourceModule

/-! ### Scopes of such modules -/

/-- The scope of a new stub is sound when all modules are and the settings can be written. -/
theorem Scope.sound_onto {settings : Settings} {index : SourceIndex} {module : SourceModule}
    (hsettings : settings.isWritable = true) (hmodules : ∀ m ∈ index.modules, m.Sound)
    (hmodule : module ∈ index.modules) : (Scope.onto settings index module .empty).Sound := by
  obtain ⟨hunknown, hmarker, hgenerics, -⟩ := Settings.isWritable_iff.1 hsettings
  have hclasses : ∀ c ∈ index.classes, c.Sound ∧ Import.isOrigin c.module = true := by
    intro c hc
    obtain ⟨m, hm, hc⟩ := List.mem_flatMap.1 hc
    obtain ⟨hsound, hname⟩ := (hmodules m hm).ofClass hc
    exact ⟨hsound, hname ▸ (hmodules m hm).isOrigin⟩
  refine ⟨⟨?_, ?_, ?_, fun c hc => (hclasses c hc).2⟩, hunknown, hmarker, fun c hc => (hclasses c hc).1⟩
  · intro i hi
    simp only [available, onto, Stub.empty, List.nil_append, List.append_nil, List.mem_map] at hi
    obtain ⟨j, hj, rfl⟩ := hi
    exact ((hmodules module hmodule).imports j hj).2
  · exact fun name generic hgeneric => hgenerics _ (mem_of_genericName? hgeneric)
  · exact fun m hm i hi => ((hmodules m hm).imports i hi).2

/-! ### Stages -/

/-- An emission of generated items that added usable imports. -/
structure Emission.Sound (e : Emission) : Prop where
  /-- The items are generated. -/
  items : ∀ item ∈ e.items, item.Generated
  /-- The imports are usable. -/
  added : Import.AllUsable e.added

namespace Emission

variable {scope : Scope} {e : Emission}

theorem Sound.merge (h : e.Sound) {item : StubItem} (hitem : item.Generated) : (e.merge item).Sound where
  items := forall_mem_mergeItem h.items hitem fun x hx _ => hitem.mergeInto (h.items x hx)
  added := h.added

section Stages

variable (hscope : scope.Sound) (he : e.Sound)
include hscope he

theorem sound_assignments (hmodule : scope.module.Sound) : (e.assignments scope).Sound := by
  unfold assignments
  refine List.foldlRecOn (motive := Emission.Sound) _ _ he fun e he a ha => ?_
  obtain ⟨⟨hvalue, htype⟩, hwritable⟩ := hmodule.ofAttribute (List.mem_filter.1 ha).1
  obtain ⟨hitem, hadded⟩ := hscope.yields_moduleAttribute hwritable hvalue htype e.added he.added
  exact ⟨(he.merge hitem).items, hadded⟩

theorem sound_classes (hclasses : ∀ c ∈ scope.module.classes, c ∈ scope.index.classes) :
    (e.classes scope).Sound := by
  unfold classes
  refine List.foldlRecOn (motive := Emission.Sound) _ _ he fun e he c hc => ?_
  have hindexed := hclasses c (List.mem_filter.1 hc).1
  obtain ⟨hitem, hadded⟩ := hscope.yields_classItem hindexed e.tally e.added he.added
  exact ⟨(he.merge hitem).items, hadded⟩

theorem sound_functions (hmodule : scope.module.Sound) : (e.functions scope).Sound := by
  obtain ⟨hbuilt, hadded⟩ := hscope.yields_functionItems scope.owns_none (fun f hf => hmodule.ofFunction hf) e.tally
    e.added he.added
  unfold functions
  refine List.foldlRecOn (motive := Emission.Sound) _ _ ⟨he.items, hadded⟩ fun e he f hf => ?_
  exact he.merge (.ofFunction (hbuilt f hf))

end Stages

end Emission

/-! ### Whole stubs -/

/-- A stub that is generated of sources that can be written is well formed. -/
theorem wellFormed_buildStub {settings : Settings} {index : SourceIndex} {module : SourceModule}
    (hsettings : settings.isWritable = true) (hmodules : ∀ m ∈ index.modules, m.Sound)
    (hmodule : module ∈ index.modules) : (buildStub settings index module .empty).1.WellFormed := by
  have hscope := Scope.sound_onto hsettings hmodules hmodule
  have hown := hmodules module hmodule
  have hindexed : ∀ c ∈ module.classes, c ∈ index.classes := fun c hc =>
    List.mem_flatMap.2 ⟨module, hmodule, hc⟩
  have hstart : (Emission.start []).Sound := ⟨by simp [Emission.start], by simp [Emission.start, Import.AllUsable]⟩
  have hassigned := Emission.sound_assignments hscope hstart hown
  have hclasses := Emission.sound_classes hscope hassigned hindexed
  have hemitted := Emission.sound_functions hscope hclasses hown
  refine ⟨fun i hi => ?_, fun item hitem => (hemitted.items item hitem).wellFormed 0⟩
  -- an import of the stub is one of the module, one that was added, or one that every stub gets
  rcases List.mem_append.1 (Scope.mem_candidates hi) with hi | hi
  · exact (hown.imports i (by simpa [Scope.onto, Stub.empty] using hi)).1
  rcases List.mem_append.1 hi with hi | hi
  · exact Import.isReadable_of_isUsable (hemitted.added i hi)
  · obtain ⟨line, hline, hi⟩ := List.mem_flatMap.1 hi
    have hall := (Settings.isWritable_iff.1 hsettings).2.2.2 line hline
    cases hread : Import.readLine line with
    | error e => simp [hread, Except.toOption] at hi
    | ok imports =>
      simp only [hread, Except.toOption, Option.all_some, Option.getD_some] at hall hi
      exact List.all_eq_true.1 hall i hi

/-- **A generated stub loads**: if all modules of an index were read off well-formed sources, and their annotations,
bases, imports and attributes can be written, then the stub that is built for one of them is read again from its
text, with the same items and the same imports. -/
theorem generated_stub_loads {settings : Settings} {index : SourceIndex} {module : SourceModule}
    (hsettings : settings.isWritable = true)
    (hmodules : ∀ m ∈ index.modules, m.IsLowered ∧ m.isWritable = true) (hmodule : module ∈ index.modules) :
    ∃ stub, Stub.parse (buildStub settings index module .empty).1.render = .ok stub ∧
      stub.items = (buildStub settings index module .empty).1.items ∧
      ∀ i, i ∈ stub.imports ↔ i ∈ (buildStub settings index module .empty).1.imports := by
  have hformed := wellFormed_buildStub hsettings (fun m hm => ⟨(hmodules m hm).1.kept, (hmodules m hm).2⟩) hmodule
  exact ⟨_, hformed.parse_render, rfl, hformed.mem_arranged⟩

/-- A source with quoted annotations, a default, bases and an import. -/
def shelfSource : String :=
  "from abc import ABCMeta\n\nclass Shelf(dict, metaclass=ABCMeta):\n    depth: \"int | None\"\n\n" ++
    "def stack(first, *more: 'Shelf', limit=3): pass\n"

/-- The module that is read off it. -/
def shelf : SourceModule := .read "shelf" "shelf.py" false shelfSource

theorem generated_stub_loads_shelf :
    Settings.standard.isWritable = true ∧ shelf.isWritable = true ∧
    ∃ stub, Stub.parse (buildStub .standard ⟨[shelf]⟩ shelf .empty).1.render = .ok stub ∧
      stub.items = (buildStub .standard ⟨[shelf]⟩ shelf .empty).1.items ∧
      ∀ i, i ∈ stub.imports ↔ i ∈ (buildStub .standard ⟨[shelf]⟩ shelf .empty).1.imports := by
  have hsettings : Settings.standard.isWritable = true := by decide +kernel
  have hwritable : shelf.isWritable = true := by decide +kernel
  have hlowered : shelf.IsLowered := SourceModule.isLowered_read (by decide +kernel) _ _ _
  refine ⟨hsettings, hwritable, generated_stub_loads hsettings ?_ (List.mem_singleton_self shelf)⟩
  intro m hm
  obtain rfl := List.mem_singleton.1 hm
  exact ⟨hlowered, hwritable⟩

/-- A module with a quoted annotation that is no expression. -/
def unwritten : SourceModule := .read "m" "m.py" false "def f(x: \"int[]\"): pass\n"

/-- The stub of the module. -/
def unwrittenStub : Stub :=
  ⟨[], [.ofFunction ⟨"f", [], false, [⟨"x", .positional, "x: int[]"⟩], ", ", some "None"⟩]⟩

/-- **An annotation that is no expression is written as it is**, and the stub is refused. -/
theorem unwritten_hint_refused :
    ¬ ∀ (settings : Settings) (index : SourceIndex) (module : SourceModule), settings.validate = .ok settings →
      (∀ m ∈ index.modules, m.IsLowered) → module ∈ index.modules →
      ∃ stub, Stub.parse (buildStub settings index module .empty).1.render = .ok stub := by
  intro hall
  have hvalid : Settings.standard.validate = .ok .standard := by decide +kernel
  have hlowered : ∀ m ∈ [unwritten], m.IsLowered := by
    intro m hm
    obtain rfl := List.mem_singleton.1 hm
    exact SourceModule.isLowered_read (by decide +kernel) _ _ _
  obtain ⟨stub, hparse⟩ := hall .standard ⟨[unwritten]⟩ unwritten hvalid hlowered (List.mem_singleton_self _)
  have hbuilt : (buildStub .standard ⟨[unwritten]⟩ unwritten .empty).1 = unwrittenStub := by decide +kernel
  have hrefused : (Stub.parse unwrittenStub.render).toOption = none := by decide +kernel
  rw [hbuilt] at hparse
  rw [hparse] at hrefused
  cases hrefused

end TypedStubs
