import TypedStubs.Proofs.Stub.Scope

/-! # What the names of a stub mean

A name of one component means what the import that binds it is the import of.  A module that is
imported under no other name binds its first component, which means the package of that name and not
the module.

A name that is read through an import of another module, or that is a class, is looked for among the
imports of the stub by what it stands for, and takes the name of the import that is found.  It keeps
its meaning when that import and the one of the other module are direct, that is when what they bind
means all of what they import (`Scope.spelling_keeps_meaning`).  The import of a dotted module is not
direct: `Scope.reuse_changes_meaning` is a name that comes to mean something else.
-/
namespace TypedStubs

open Dotted (IsSimple head)

namespace Import

/-- What the name that an import binds means. -/
def target : Import → String
  | .module path none => head path
  | i => i.qualified

/-- Whether the name that an import binds means all of what is imported. -/
def IsDirect (i : Import) : Prop := i.target = i.qualified

instance (i : Import) : Decidable i.IsDirect := inferInstanceAs (Decidable (i.target = i.qualified))

/-- Whether the imports that bind one name give it one meaning. -/
def Agree (imports : List Import) : Prop :=
  ∀ i ∈ imports, ∀ j ∈ imports, ∀ name, i.bound? = some name → j.bound? = some name →
    i.target = j.target

/-- Imports agree with one more that binds a new name. -/
theorem Agree.concat {imports : List Import} {i : Import} {name : String} (h : Agree imports)
    (hname : i.bound? = some name) (hnew : ¬ Binds imports name) : Agree (imports ++ [i]) := by
  intro j hj k hk n hjn hkn
  rw [List.mem_append, List.mem_singleton] at hj hk
  rcases hj with hj | rfl <;> rcases hk with hk | rfl
  · exact h j hj k hk n hjn hkn
  · obtain rfl := Option.some.inj (hname.symm.trans hkn)
    exact absurd ⟨j, hj, hjn⟩ hnew
  · obtain rfl := Option.some.inj (hname.symm.trans hjn)
    exact absurd ⟨k, hk, hkn⟩ hnew
  · rfl

theorem IsDirect.absolutize {i : Import} (h : i.IsDirect) (package : String) :
    (i.absolutize package).IsDirect := by
  cases i with
  | module path asName => exact h
  | member source name asName => rfl
  | star source => rfl

end Import

/-- The fully qualified name that a dotted name has where it is read through an import. -/
def ImportSite.meaning (site : ImportSite) (dotted : String) : String :=
  Dotted.cons (site.stmt.absolutize site.module.package).target (Dotted.uncons dotted).2

/-- Whether the qualified name of a class is that of a member of its module. -/
def SourceClass.IsPlaced (c : SourceClass) : Prop :=
  c.qualified = (Import.member c.module c.name none).qualified

namespace Scope

variable {scope : Scope} {added : List Import} {dotted full : String}

/-- Whether a dotted name means `full` in the stub: its head is bound, and whichever import binds it,
what it means is followed by the rest of the name in `full`. -/
def Means (scope : Scope) (added : List Import) (dotted full : String) : Prop :=
  scope.binds added (head dotted) = true ∧
    ∀ i ∈ scope.available added, i.bound? = some (head dotted) →
      Dotted.cons i.target (Dotted.uncons dotted).2 = full

/-- Whether a name is looked up in the other modules. -/
def LooksUp (scope : Scope) (added : List Import) (dotted : String) : Prop :=
  scope.Imports (head dotted) ∧ (∀ name, ¬ scope.IsGeneric dotted name) ∧
    scope.binds added (head dotted) = false

/-- A missing import binds a name that was not bound. -/
theorem SpelledAs.added_unbound {s : Spelling} (h : scope.SpelledAs added dotted s) :
    ∀ i ∈ s.added, ∃ name, i.bound? = some name ∧ scope.binds added name = false := by
  intro i hi
  cases h with
  | own | bound | unknown => cases hi
  | @generic name _ hgeneric =>
    simp only [genericSpelling, Option.mem_def] at hi
    split at hi
    · cases hi
    · next hbound =>
      cases hi
      exact ⟨name, rfl, Bool.eq_false_iff.2 hbound⟩
  | foreign _ _ hbound hsite =>
    simp only [foreignSpelling, Option.mem_def] at hi
    split at hi
    · cases hi
    · cases hi
      exact ⟨head dotted, by rw [Import.bound?_absolutize, bound?_of_foreignSite? hsite], hbound⟩
  | ofClass _ _ hbound _ hclass =>
    simp only [classSpelling, Option.mem_def] at hi
    split at hi
    · cases hi
    split at hi
    · cases hi
    · cases hi
      exact ⟨dotted, rfl, Dotted.head_of_isSimple hclass.1 ▸ hbound⟩

/-- A missing import keeps the imports in agreement. -/
theorem SpelledAs.agree {s : Spelling} (h : scope.SpelledAs added dotted s)
    (hagree : Import.Agree (scope.available added)) :
    Import.Agree (scope.available (added ++ s.added.toList)) := by
  rw [available_append]
  cases hs : s.added with
  | none => simpa using hagree
  | some i =>
    obtain ⟨name, hname, hnew⟩ := h.added_unbound i hs
    refine hagree.concat hname fun hbinds => ?_
    rw [binds_iff.2 hbinds] at hnew
    cases hnew

/-- A name keeps its meaning when a missing import is added for another one. -/
theorem Means.spelled {other : String} {s : Spelling} (h : scope.Means added dotted full)
    (hs : scope.SpelledAs added other s) : scope.Means (added ++ s.added.toList) dotted full := by
  refine ⟨binds_append h.1 _, fun i hi hname => ?_⟩
  rw [available_append, List.mem_append] at hi
  rcases hi with hi | hi
  · exact h.2 i hi hname
  · -- the new import binds a name that was not bound, so not this one
    obtain ⟨n, hn, hnew⟩ := hs.added_unbound i (by simpa using hi)
    obtain rfl := Option.some.inj (hname.symm.trans hn)
    rw [h.1] at hnew
    cases hnew

theorem Means.addedBy (h : scope.Means added dotted full) (names : List String) :
    scope.Means (scope.addedBy added names) dotted full := by
  induction names generalizing added with
  | nil => exact h
  | cons other names ih =>
    rw [addedBy_cons]
    exact ih (h.spelled (spelledAs_spelling scope added other))

theorem agree_addedBy (h : Import.Agree (scope.available added)) (names : List String) :
    Import.Agree (scope.available (scope.addedBy added names)) := by
  induction names generalizing added with
  | nil => exact h
  | cons other names ih =>
    rw [addedBy_cons]
    exact ih ((spelledAs_spelling scope added other).agree h)

/-- A name of an import that is found for a target means that target, if the import is direct. -/
theorem means_reused {target asName : String} (rest : Option String)
    (h : scope.boundTo? added target = some asName)
    (hsimple : ∀ i ∈ scope.available added, i.BindsSimple)
    (hagree : Import.Agree (scope.available added))
    (hdirect : ∀ i ∈ scope.available added, i.qualified = target → i.IsDirect) :
    scope.Means added (Dotted.cons asName rest) (Dotted.cons target rest) := by
  obtain ⟨i, hi, -, htarget, hbound⟩ := boundTo?_eq_some h
  have hname : IsSimple asName := hsimple i hi asName hbound
  have hmeans : i.target = target := (hdirect i hi htarget).trans htarget
  refine ⟨?_, fun j hj hjname => ?_⟩
  · rw [Dotted.head_cons hname, binds_iff]
    exact ⟨i, hi, hbound⟩
  · rw [Dotted.head_cons hname] at hjname
    rw [Dotted.uncons_cons hname, hagree j hj i hi asName hjname hbound, hmeans]

/-- A name that was not bound means what the import says that is added for it. -/
theorem means_added {i : Import} (hname : i.bound? = some (head dotted))
    (hnew : scope.binds added (head dotted) = false) :
    scope.Means (added ++ [i]) dotted (Dotted.cons i.target (Dotted.uncons dotted).2) := by
  refine ⟨binds_added hname added, fun j hj hjname => ?_⟩
  rw [available_append, List.mem_append, List.mem_singleton] at hj
  rcases hj with hj | rfl
  · rw [binds_iff.2 ⟨j, hj, hjname⟩] at hnew
    cases hnew
  · rfl

/-- A name that another module imports means in the stub what it means there. -/
theorem means_foreign {site : ImportSite} (hup : scope.LooksUp added dotted)
    (hsite : scope.foreignSite? (head dotted) = some site)
    (hsimple : ∀ i ∈ scope.available added, i.BindsSimple)
    (hagree : Import.Agree (scope.available added))
    (hdirect : ∀ i ∈ scope.available added,
      i.qualified = (site.stmt.absolutize site.module.package).qualified →
        i.IsDirect ∧ site.stmt.IsDirect) :
    scope.Means (added ++ (scope.foreignSpelling added dotted site).added.toList)
      (scope.foreignSpelling added dotted site).text (site.meaning dotted) := by
  rw [foreignSpelling]
  split
  · next asName hreuse =>
    obtain ⟨i, hi, -, htarget, -⟩ := boundTo?_eq_some hreuse
    have hmeans := means_reused (Dotted.uncons dotted).2 hreuse hsimple hagree
      fun i hi htarget => (hdirect i hi htarget).1
    rw [ImportSite.meaning, (hdirect i hi htarget).2.absolutize]
    simpa using hmeans
  · exact means_added (by rw [Import.bound?_absolutize, bound?_of_foreignSite? hsite]) hup.2.2

/-- The name of a class of another module means that class in the stub. -/
theorem means_ofClass {c : SourceClass} (hup : scope.LooksUp added dotted)
    (hclass : scope.PicksClass dotted c) (hmodule : c.module ≠ scope.module.name)
    (hplaced : c.IsPlaced) (hsimple : ∀ i ∈ scope.available added, i.BindsSimple)
    (hagree : Import.Agree (scope.available added))
    (hdirect : ∀ i ∈ scope.available added, i.qualified = c.qualified → i.IsDirect) :
    scope.Means (added ++ (scope.classSpelling added dotted c).added.toList)
      (scope.classSpelling added dotted c).text c.qualified := by
  have hname : c.name = dotted := by
    have hmem := MatchPolicy.pick_mem hclass.2
    simpa using (List.mem_filter.1 hmem).2
  have hhead : head dotted = dotted := Dotted.head_of_isSimple hclass.1
  rw [classSpelling, if_neg hmodule]
  split
  · next asName hreuse =>
    simpa [Dotted.cons] using means_reused none hreuse hsimple hagree hdirect
  · have hmeans := means_added (i := .member c.module dotted none) (congrArg some hhead.symm) hup.2.2
    rw [Dotted.uncons_snd_eq_none.2 hclass.1] at hmeans
    rw [hplaced, hname]
    exact hmeans

theorem SpelledAs.eq_foreignSpelling {s : Spelling} {site : ImportSite}
    (h : scope.SpelledAs added dotted s) (hup : scope.LooksUp added dotted)
    (hsite : scope.foreignSite? (head dotted) = some site) :
    s = scope.foreignSpelling added dotted site := by
  cases h with
  | own hown => exact absurd hup.1 hown
  | generic _ h => exact absurd h (hup.2.1 _)
  | bound _ _ h => simp [hup.2.2] at h
  | foreign _ _ _ h =>
    obtain rfl := Option.some.inj (hsite.symm.trans h)
    rfl
  | ofClass _ _ _ h => simp [hsite] at h
  | unknown _ _ h => simp [hsite] at h

theorem SpelledAs.eq_classSpelling {s : Spelling} {c : SourceClass}
    (h : scope.SpelledAs added dotted s) (hup : scope.LooksUp added dotted)
    (hnone : scope.foreignSite? (head dotted) = none) (hclass : scope.PicksClass dotted c) :
    s = scope.classSpelling added dotted c := by
  cases h with
  | own hown => exact absurd hup.1 hown
  | generic _ h => exact absurd h (hup.2.1 _)
  | bound _ _ h => simp [hup.2.2] at h
  | foreign _ _ _ h => simp [hnone] at h
  | ofClass _ _ _ _ h =>
    obtain rfl := Option.some.inj (hclass.2.symm.trans h.2)
    rfl
  | unknown _ _ _ h => exact absurd hclass (h c)

/-- **Reused names keep their meaning.**  Names are spelled one after the other.  One that another module
imports, or that is a class of another module, means in the stub what it means there, after the call and
whatever names are spelled later, when the imports agree and those of what it stands for are direct. -/
theorem spelling_keeps_meaning (scope : Scope)
    (htypes : ∀ name ∈ scope.settings.genericTypes, IsSimple name)
    (haliases : ∀ p ∈ scope.settings.genericAliases, IsSimple p.2)
    (hsimple : ∀ i ∈ scope.available [], i.BindsSimple)
    (hagree : Import.Agree (scope.available [])) (names later : List String) (dotted : String)
    (hup : scope.LooksUp (scope.addedBy [] names) dotted) :
    (∀ site, scope.foreignSite? (head dotted) = some site →
      (∀ i ∈ scope.available (scope.addedBy [] names),
        i.qualified = (site.stmt.absolutize site.module.package).qualified →
          i.IsDirect ∧ site.stmt.IsDirect) →
      scope.Means (scope.addedBy [] (names ++ dotted :: later))
        ((scope.localizeName dotted).run (scope.addedBy [] names)).1 (site.meaning dotted)) ∧
    ∀ c, scope.foreignSite? (head dotted) = none → scope.PicksClass dotted c →
      c.module ≠ scope.module.name → c.IsPlaced →
      (∀ i ∈ scope.available (scope.addedBy [] names), i.qualified = c.qualified → i.IsDirect) →
      scope.Means (scope.addedBy [] (names ++ dotted :: later))
        ((scope.localizeName dotted).run (scope.addedBy [] names)).1 c.qualified := by
  have hgenerics := isSimple_of_genericName? htypes haliases
  have hsimple := available_addedBy_bindsSimple hgenerics hsimple names
  have hagree := agree_addedBy hagree names
  have hspelled := spelledAs_spelling scope (scope.addedBy [] names) dotted
  rw [addedBy_append, addedBy_cons]
  refine ⟨fun site hsite hdirect => Means.addedBy ?_ later,
    fun c hnone hclass hmodule hplaced hdirect => Means.addedBy ?_ later⟩
  · show scope.Means _ (scope.spelling _ dotted).text _
    rw [hspelled.eq_foreignSpelling hup hsite]
    exact means_foreign hup hsite hsimple hagree hdirect
  · show scope.Means _ (scope.spelling _ dotted).text _
    rw [hspelled.eq_classSpelling hup hnone hclass]
    exact means_ofClass hup hclass hmodule hplaced hsimple hagree hdirect

theorem spelling_keeps_meaning_patches :
    patches.LooksUp (patches.addedBy [] ["Optional"]) "mcolors.Color" ∧
    (∃ site, patches.foreignSite? (head "mcolors.Color") = some site ∧
      site.meaning "mcolors.Color" = "pkg.colors.Color") ∧
    patches.Means (patches.addedBy [] ["Optional", "mcolors.Color", "List"])
      ((patches.localizeName "mcolors.Color").run (patches.addedBy [] ["Optional"])).1
      "pkg.colors.Color" := by
  have hup : patches.LooksUp (patches.addedBy [] ["Optional"]) "mcolors.Color" :=
    ⟨patches_imports, fun name h => absurd h.1 (by decide +kernel), by decide +kernel⟩
  obtain ⟨site, hsite, hmeaning⟩ : ∃ site, patches.foreignSite? (head "mcolors.Color") = some site ∧
      (site.meaning "mcolors.Color", decide site.stmt.IsDirect) = ("pkg.colors.Color", true) :=
    Option.map_eq_some_iff.1 (by decide +kernel)
  obtain ⟨hmeaning, hdirect⟩ := Prod.mk.inj hmeaning
  have himports : ∀ i ∈ patches.available [], i.BindsSimple := by
    intro i hi name hname
    obtain rfl := List.mem_singleton.1 hi
    obtain rfl := Option.some.inj hname
    decide +kernel
  have hagree : Import.Agree (patches.available []) := by
    intro i hi j hj _ _ _
    rw [List.mem_singleton.1 hi, List.mem_singleton.1 hj]
  have hall := spelling_keeps_meaning patches (by decide +kernel) (by decide +kernel) himports hagree
    ["Optional"] ["List"] "mcolors.Color" hup
  have havailable : ∀ i ∈ patches.available (patches.addedBy [] ["Optional"]), i.IsDirect := by
    decide +kernel
  refine ⟨hup, ⟨site, hsite, hmeaning⟩, hmeaning ▸ hall.1 site hsite fun i hi _ => ?_⟩
  exact ⟨havailable i hi, of_decide_eq_true hdirect⟩

/-- A module that imports a dotted module, which another module imports a member of. -/
def paths : Scope where
  settings := .standard
  index := ⟨[⟨"m", "m.py", false, none, [.module "os.path" none], []⟩,
    ⟨"n", "n.py", false, none, [.member "os" "path" none], []⟩]⟩
  module := ⟨"m", "m.py", false, none, [.module "os.path" none], []⟩
  existing := []
  existingNames := []

/-- A name that is reused and means something else: the import of a dotted module is found, and binds
no more than the package. -/
theorem reuse_changes_meaning :
    paths.LooksUp [] "path.join" ∧
    (∃ site, paths.foreignSite? (head "path.join") = some site ∧
      site.meaning "path.join" = "os.path.join") ∧
    paths.spelling [] "path.join" = ⟨"os.join", none⟩ ∧
    ¬ paths.Means [] "os.join" "os.path.join" := by
  refine ⟨⟨⟨by decide +kernel, by decide +kernel⟩, fun name h => absurd h.1 (by decide +kernel),
    by decide +kernel⟩, Option.map_eq_some_iff.1 (by decide +kernel), by decide +kernel, fun h => ?_⟩
  have hmeans := h.2 (.module "os.path" none) (by decide +kernel) (by decide +kernel)
  exact absurd hmeans (by decide +kernel)

end Scope
end TypedStubs
