import TypedStubs.Proofs.Dotted
import TypedStubs.Proofs.Import.Absolute
import TypedStubs.Proofs.Import.Block
import TypedStubs.Proofs.Import.Needed
import TypedStubs.Stub.Scope

/-! # Resolved names stay imported

Names are spelled one after the other, and each may add an import.  `Scope.SpelledAs` lists what one
name can come to, with all that was asked before, and `Scope.spelledAs_spelling` says that this is all;
what follows about a name is said case by case.

A name is resolved when it is a generic, bound already, imported by another module, or a class of
another module.  The head of the spelling that a resolved name gets is bound from then on
(`Scope.binds_of_resolves`, `Scope.binds_addedBy`), and the finished imports bind every word of the
body that was bound (`Scope.finish_binds`).
-/
namespace TypedStubs

open Dotted (IsSimple head)

/-- Whether an import binds a name of one component, if it binds a name that is known. -/
def Import.BindsSimple (i : Import) : Prop := ∀ name, i.bound? = some name → IsSimple name

namespace Scope

variable {scope : Scope} {added : List Import} {dotted : String}

/-! ## What a name can come to -/

/-- Whether the stub has to import a name: it is no declaration and needs an import. -/
def Imports (scope : Scope) (name : String) : Prop :=
  scope.declares name = false ∧ scope.settings.isBuiltin name = false

/-- Whether a dotted name is that of a generic. -/
def IsGeneric (scope : Scope) (dotted name : String) : Prop :=
  IsSimple dotted ∧ scope.settings.genericName? dotted = some name

/-- The class that a policy finds for a name of one component. -/
def PicksClass (scope : Scope) (dotted : String) (c : SourceClass) : Prop :=
  IsSimple dotted ∧ scope.settings.matchPolicy.pick (scope.index.classesNamed dotted) = some c

/-- The spelling of a dotted name, by what decided on it. -/
inductive SpelledAs (scope : Scope) (added : List Import) (dotted : String) : Spelling → Prop where
  /-- It is declared, or needs no import. -/
  | own (h : ¬ scope.Imports (head dotted)) : SpelledAs scope added dotted ⟨dotted, none⟩
  /-- It is a generic. -/
  | generic {name : String} (hopen : scope.Imports (head dotted)) (h : scope.IsGeneric dotted name) :
    SpelledAs scope added dotted (scope.genericSpelling added name)
  /-- It is bound. -/
  | bound (hopen : scope.Imports (head dotted)) (hgeneric : ∀ name, ¬ scope.IsGeneric dotted name)
      (h : scope.binds added (head dotted) = true) : SpelledAs scope added dotted ⟨dotted, none⟩
  /-- Another module imports it. -/
  | foreign {site : ImportSite} (hopen : scope.Imports (head dotted))
      (hgeneric : ∀ name, ¬ scope.IsGeneric dotted name)
      (hbound : scope.binds added (head dotted) = false)
      (h : scope.foreignSite? (head dotted) = some site) :
    SpelledAs scope added dotted (scope.foreignSpelling added dotted site)
  /-- It is a class. -/
  | ofClass {c : SourceClass} (hopen : scope.Imports (head dotted))
      (hgeneric : ∀ name, ¬ scope.IsGeneric dotted name)
      (hbound : scope.binds added (head dotted) = false)
      (hsite : scope.foreignSite? (head dotted) = none) (h : scope.PicksClass dotted c) :
    SpelledAs scope added dotted (scope.classSpelling added dotted c)
  /-- Nothing is known of it. -/
  | unknown (hgeneric : ∀ name, ¬ scope.IsGeneric dotted name)
      (hbound : scope.binds added (head dotted) = false)
      (hsite : scope.foreignSite? (head dotted) = none) (hclass : ∀ c, ¬ scope.PicksClass dotted c) :
    SpelledAs scope added dotted ⟨dotted, none⟩

theorem spelledAs_spelling (scope : Scope) (added : List Import) (dotted : String) :
    scope.SpelledAs added dotted (scope.spelling added dotted) := by
  have hrest : (Dotted.uncons dotted).2.isNone = true ↔ IsSimple dotted := by
    rw [Option.isNone_iff_eq_none, Dotted.uncons_snd_eq_none]
  have hsome : (Dotted.uncons dotted).2.isSome = true ↔ ¬ IsSimple dotted := by
    rw [← hrest, Option.isSome_iff_ne_none, Option.isNone_iff_eq_none]
  have hhead : IsSimple dotted → head dotted = dotted := Dotted.head_of_isSimple
  rw [spelling]
  simp only [Dotted.uncons_fst]
  split
  · next hown => exact .own fun h => by simp [h.1, h.2] at hown
  next hown =>
  have hopen : scope.Imports (head dotted) := by simpa [Imports] using hown
  split
  · next generic hgeneric =>
    split at hgeneric
    · next hsimple =>
      rw [hrest] at hsimple
      exact .generic hopen ⟨hsimple, hhead hsimple ▸ hgeneric⟩
    · cases hgeneric
  next hgeneric =>
  have hgeneric : ∀ name, ¬ scope.IsGeneric dotted name := by
    intro name h
    rw [if_pos (hrest.2 h.1), hhead h.1, h.2] at hgeneric
    cases hgeneric
  split
  · next hbound => exact .bound hopen hgeneric hbound
  next hbound =>
  have hbound := Bool.eq_false_iff.2 hbound
  split
  · next site hsite => exact .foreign hopen hgeneric hbound hsite
  next hsite =>
  split
  · next hdots => exact .unknown hgeneric hbound hsite fun c h => hsome.1 hdots h.1
  next hdots =>
  have hsimple : IsSimple dotted := Decidable.byContradiction fun h => hdots (hsome.2 h)
  split
  · next c hc => exact .ofClass hopen hgeneric hbound hsite ⟨hsimple, hhead hsimple ▸ hc⟩
  · next hc =>
    refine .unknown hgeneric hbound hsite fun c h => ?_
    rw [hhead hsimple, h.2] at hc
    cases hc

/-! ## Bound names -/

theorem binds_iff {name : String} :
    scope.binds added name = true ↔ Import.Binds (scope.available added) name := by
  simp [binds, Import.Binds]

theorem available_append (added more : List Import) :
    scope.available (added ++ more) = scope.available added ++ more := by
  simp [available]

theorem binds_append {name : String} (h : scope.binds added name = true) (more : List Import) :
    scope.binds (added ++ more) name = true := by
  rw [binds_iff] at h ⊢
  rw [available_append]
  exact h.append_left more

theorem binds_added {i : Import} {name : String} (h : i.bound? = some name) (added : List Import) :
    scope.binds (added ++ [i]) name = true := by
  rw [binds_iff, available_append]
  exact Import.Binds.append_right _ ⟨i, List.mem_singleton_self i, h⟩

/-- What another module imports is bound by the name that was asked for. -/
theorem bound?_of_foreignSite? {name : String} {site : ImportSite}
    (h : scope.foreignSite? name = some site) : site.stmt.bound? = some name := by
  have hmem := MatchPolicy.pick_mem h
  simp only [SourceIndex.bindingsOf, List.mem_filter, List.mem_flatMap, List.mem_map] at hmem
  obtain ⟨⟨m, -, i, ⟨-, hi⟩, rfl⟩, -⟩ := hmem
  simpa using hi

/-- The import that is reused for a target, and the name it binds. -/
theorem boundTo?_eq_some {target asName : String} (h : scope.boundTo? added target = some asName) :
    ∃ i ∈ scope.available added, i.isStar = false ∧ i.qualified = target ∧
      i.bound? = some asName := by
  obtain ⟨i, hfind, hbound⟩ := Option.bind_eq_some_iff.1 h
  have hi := List.find?_some hfind
  simp only [Bool.and_eq_true, Bool.not_eq_true', beq_iff_eq] at hi
  exact ⟨i, List.mem_of_find?_eq_some hfind, hi.1, hi.2, hbound⟩

/-! ## What spelling a name does -/

/-- A missing import binds a name of one component. -/
theorem SpelledAs.bindsSimple {s : Spelling} (h : scope.SpelledAs added dotted s)
    (hgenerics : ∀ name generic, scope.settings.genericName? name = some generic → IsSimple generic) :
    ∀ i ∈ s.added, i.BindsSimple := by
  intro i hi name hname
  cases h with
  | own | bound | unknown => cases hi
  | generic _ hgeneric =>
    simp only [genericSpelling, Option.mem_def] at hi
    split at hi
    · cases hi
    · cases hi
      exact Option.some.inj hname ▸ hgenerics _ _ hgeneric.2
  | foreign _ _ _ hsite =>
    simp only [foreignSpelling, Option.mem_def] at hi
    split at hi
    · cases hi
    · cases hi
      rw [Import.bound?_absolutize, bound?_of_foreignSite? hsite] at hname
      exact Option.some.inj hname ▸ Dotted.isSimple_head dotted
  | ofClass _ _ _ _ hclass =>
    simp only [classSpelling, Option.mem_def] at hi
    split at hi
    · cases hi
    split at hi
    · cases hi
    · cases hi
      exact Option.some.inj hname ▸ hclass.1

/-- Whether the meaning of a dotted name is found: it needs an import, and is a generic, bound,
imported by another module, or a class of another module. -/
inductive Resolves (scope : Scope) (added : List Import) (dotted : String) : Prop where
  /-- It is a generic. -/
  | generic {name : String} (hopen : scope.Imports (head dotted)) (h : scope.IsGeneric dotted name)
  /-- It is bound. -/
  | bound (hopen : scope.Imports (head dotted)) (h : scope.binds added (head dotted) = true)
  /-- Another module imports it. -/
  | foreign {site : ImportSite} (hopen : scope.Imports (head dotted))
      (h : scope.foreignSite? (head dotted) = some site)
  /-- It is a class of another module. -/
  | ofClass {c : SourceClass} (hopen : scope.Imports (head dotted)) (h : scope.PicksClass dotted c)
      (hmodule : c.module ≠ scope.module.name)

theorem Resolves.imports (h : scope.Resolves added dotted) : scope.Imports (head dotted) := by
  cases h <;> assumption

/-- The imports that were added when names were spelled one after the other. -/
def addedBy (scope : Scope) (added : List Import) (names : List String) : List Import :=
  ((names.mapM scope.localizeName).run added).2

@[simp] theorem addedBy_nil (added : List Import) : scope.addedBy added [] = added := rfl

@[simp] theorem addedBy_cons (added : List Import) (dotted : String) (names : List String) :
    scope.addedBy added (dotted :: names) =
      scope.addedBy (added ++ (scope.spelling added dotted).added.toList) names := by
  rw [addedBy, List.mapM_cons]
  rfl

theorem addedBy_append (added : List Import) (names more : List String) :
    scope.addedBy added (names ++ more) = scope.addedBy (scope.addedBy added names) more := by
  induction names generalizing added with
  | nil => rfl
  | cons dotted names ih => simp [ih]

theorem available_addedBy_bindsSimple
    (hgenerics : ∀ name generic, scope.settings.genericName? name = some generic → IsSimple generic)
    (h : ∀ i ∈ scope.available added, i.BindsSimple) (names : List String) :
    ∀ i ∈ scope.available (scope.addedBy added names), i.BindsSimple := by
  induction names generalizing added with
  | nil => exact h
  | cons dotted names ih =>
    rw [addedBy_cons]
    refine ih fun i hi => ?_
    rw [available_append, List.mem_append] at hi
    rcases hi with hi | hi
    · exact h i hi
    · exact (spelledAs_spelling scope added dotted).bindsSimple hgenerics i (by simpa using hi)

/-! ## The finished imports -/

variable {used : List String} {name body : String}

/-- The imports that those of a finished stub are taken from, in the order in which they are met. -/
def candidates (scope : Scope) (added : List Import) : List Import :=
  scope.existing ++ scope.module.imports ++ (added ++ scope.baseline)

/-- An import that is not copied, though it binds a mentioned name, binds one that is bound. -/
theorem binds_of_not_isCopied (hused : name ∈ used) {present : List Import} {i : Import}
    (hname : i.bound? = some name) (h : ¬ isCopied used present i = true) : Import.Binds present name := by
  simp only [isCopied, hname] at h
  split at h
  · exact ⟨i, by simpa using h, hname⟩
  · simpa [hused, Import.Binds] using h

/-- The first import that binds a mentioned name is among those present, or else the first of the
module. -/
theorem find?_withCopied (hused : name ∈ used) (present imports : List Import) :
    (withCopied used present imports).find? (·.bound? == some name) =
      (present ++ imports).find? (·.bound? == some name) := by
  induction imports generalizing present with
  | nil => rw [withCopied, List.append_nil]
  | cons i rest ih =>
    rw [withCopied, ih]
    split
    · rw [List.append_assoc, List.singleton_append]
    · next hcopied =>
      rw [List.find?_append, List.find?_append]
      by_cases hname : i.bound? = some name
      · -- the name is bound before `i`, so what stands behind is not asked
        have hbinds := Import.binds_iff_find?.1 (binds_of_not_isCopied hused hname hcopied)
        obtain ⟨j, hj⟩ := Option.isSome_iff_exists.1 hbinds
        rw [hj, Option.some_or, Option.some_or]
      · rw [List.find?_cons_of_neg (by simpa using hname)]

/-- **The first import that binds a mentioned name stays the first.** -/
theorem find?_finish (hused : name ∈ Import.mentioned body) :
    (scope.finish added body).find? (·.bound? == some name) =
      (scope.candidates added).find? (·.bound? == some name) := by
  have hneeded (imports : List Import) :
      (Import.needed (Import.mentioned body) imports).find? (·.bound? == some name) =
        imports.find? (·.bound? == some name) :=
    Import.find?_keepNeeded hused (fun _ h => absurd h List.not_mem_nil) List.not_mem_nil imports
  simp only [finish, candidates, hneeded, List.find?_append, find?_withCopied hused]

/-- A mentioned name is bound by the finished imports if it is by those that they are taken from. -/
theorem finish_binds_iff (hused : name ∈ Import.mentioned body) :
    Import.Binds (scope.finish added body) name ↔ Import.Binds (scope.candidates added) name := by
  rw [Import.binds_iff_find?, find?_finish hused, ← Import.binds_iff_find?]

/-- The name that a generic is imported under is one of the settings. -/
theorem mem_of_genericName? {settings : Settings} {name generic : String}
    (h : settings.genericName? name = some generic) :
    generic ∈ settings.genericTypes ++ settings.genericAliases.map (·.2) := by
  rw [Settings.genericName?] at h
  split at h
  · next target hlookup =>
    obtain rfl := Option.some.inj h
    obtain ⟨before, after, heq, -⟩ := List.lookup_eq_some_iff.1 hlookup
    simp [heq]
  · exact List.mem_append_left _ (List.mem_of_find?_eq_some h)

theorem isSimple_of_genericName? {settings : Settings}
    (htypes : ∀ name ∈ settings.genericTypes, IsSimple name)
    (haliases : ∀ p ∈ settings.genericAliases, IsSimple p.2) (name generic : String)
    (h : settings.genericName? name = some generic) : IsSimple generic := by
  rcases List.mem_append.1 (mem_of_genericName? h) with hmem | hmem
  · exact htypes generic hmem
  · obtain ⟨p, hp, rfl⟩ := List.mem_map.1 hmem
    exact haliases p hp

/-- A module that imports under one name what another module imports under a second one. -/
def patches : Scope where
  settings := .standard
  index := ⟨[⟨"pkg.axes", "pkg/axes.py", false, none, [.member "." "colors" (some "mcolors")], []⟩,
    ⟨"pkg.patches", "pkg/patches.py", false, none, [.module "pkg.colors" (some "colors")], []⟩]⟩
  module := ⟨"pkg.patches", "pkg/patches.py", false, none, [.module "pkg.colors" (some "colors")], []⟩
  existing := []
  existingNames := []

theorem patches_imports : patches.Imports (head "mcolors.Color") :=
  ⟨by decide +kernel, by decide +kernel⟩

end Scope
end TypedStubs
