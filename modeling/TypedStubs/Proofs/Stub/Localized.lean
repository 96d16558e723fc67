import TypedStubs.Proofs.Hint.Expression
import TypedStubs.Proofs.Stub.Scope
import TypedStubs.Stub.Emission

/-! # Names of a stub are written as expressions

An import is usable if it is made of words and the name it binds may start an expression (`Import.isUsable`).  A
scope all of whose imports are usable (`Scope.Usable`) spells a name that may start an expression as such a name,
and what it adds is usable again (`Scope.yields_localizeName`).  So a hint that is written as an expression in the
source is written as one in the stub (`Scope.yields_localize`), whatever was added before it.
-/
namespace TypedStubs

open Hint (isReference)

/-- Whether an import is made of words, and binds no name that an expression may not start with. -/
def Import.isUsable (i : Import) : Bool := i.isReadable && i.bound?.all isReference

/-- Whether all imports of a list are usable. -/
def Import.AllUsable (imports : List Import) : Prop := ∀ i ∈ imports, i.isUsable = true

theorem Import.isReadable_of_isUsable {i : Import} (h : i.isUsable = true) : i.isReadable = true := by
  rw [isUsable, Bool.and_eq_true] at h
  exact h.1

theorem Import.isReference_of_isUsable {i : Import} {name : String} (h : i.isUsable = true)
    (hname : i.bound? = some name) : isReference name = true := by
  rw [isUsable, hname, Bool.and_eq_true] at h
  simpa using h.2

/-! ### References -/

namespace Hint

theorem isPath_of_isReference {path : String} (h : isReference path = true) : Import.isPath path = true := by
  rw [isReference, Bool.and_eq_true] at h
  exact h.1

/-- A path with another path in the place of its head is one. -/
theorem isReference_cons_uncons {first path : String} (hfirst : isReference first = true)
    (hpath : Import.isPath path = true) : isReference (Dotted.cons first (Dotted.uncons path).2) = true := by
  simp only [isReference, Bool.and_eq_true] at hfirst ⊢
  rw [Dotted.head_cons_path]
  refine ⟨?_, hfirst.2⟩
  rcases Dotted.uncons_cases path with ⟨-, huncons⟩ | ⟨rest, huncons, heq⟩
  · rw [huncons]
    exact hfirst.1
  · have hdot : String.singleton '.' = "." := by decide
    rw [heq, Import.isPath, ← hdot, Text.splitOn_append, List.all_append, Bool.and_eq_true] at hpath
    rw [huncons, Dotted.cons, Import.isPath, ← hdot, Text.splitOn_append, List.all_append, Bool.and_eq_true]
    exact ⟨hfirst.1, hpath.2⟩

/-- An import of a name from a module is usable when the name may start an expression. -/
theorem isUsable_member {source name : String} (hsource : Import.isOrigin source = true)
    (hname : isReference name = true) : (Import.member source name none).isUsable = true := by
  simp [Import.isUsable, Import.isReadable, Import.bound?, hsource, hname, isPath_of_isReference hname]

end Hint

/-! ### Computations that add imports -/

/-- Whether a computation adds usable imports to usable ones, with a result of some kind. -/
def Yields {α : Type} (P : α → Prop) (m : Adding α) : Prop :=
  ∀ added, Import.AllUsable added → P (m.run added).1 ∧ Import.AllUsable (m.run added).2

/-- The same of a computation that may fail. -/
def YieldsOk {α : Type} (P : α → Prop) (m : ExceptT Hint.Problem Adding α) : Prop :=
  Yields (fun r => ∀ a, r = .ok a → P a) m.run

section Yields

variable {α β : Type} {P : α → Prop} {Q : β → Prop}

theorem Yields.pure {a : α} (h : P a) : Yields P (Pure.pure a : Adding α) := fun _ hadded => ⟨h, hadded⟩

theorem Yields.bind {m : Adding α} {f : α → Adding β} (hm : Yields P m) (hf : ∀ a, P a → Yields Q (f a)) :
    Yields Q (m >>= f) := fun added hadded =>
  have ⟨hresult, hmore⟩ := hm added hadded
  hf _ hresult _ hmore

theorem Yields.mapM {f : α → Adding β} {xs : List α} (hf : ∀ x ∈ xs, Yields Q (f x)) :
    Yields (fun ys => ∀ y ∈ ys, Q y) (xs.mapM f) := by
  induction xs with
  | nil => exact .pure (by simp)
  | cons x xs ih =>
    obtain ⟨hx, hxs⟩ := List.forall_mem_cons.1 hf
    rw [List.mapM_cons]
    exact hx.bind fun y hy => (ih hxs).bind fun ys hys => .pure (List.forall_mem_cons.2 ⟨hy, hys⟩)

theorem YieldsOk.pure {a : α} (h : P a) : YieldsOk P (Pure.pure a : ExceptT Hint.Problem Adding α) :=
  Yields.pure fun _ heq => Except.ok.inj heq ▸ h

theorem YieldsOk.lift {m : Adding α} (h : Yields P m) :
    YieldsOk P (liftM m : ExceptT Hint.Problem Adding α) := fun added hadded =>
  have ⟨hresult, hmore⟩ := h added hadded
  ⟨fun _ heq => Except.ok.inj heq ▸ hresult, hmore⟩

theorem YieldsOk.liftExcept {r : Except Hint.Problem α} (h : ∀ a, r = .ok a → P a) :
    YieldsOk P (Scope.localizeText.liftExcept r) := fun _ hadded => ⟨h, hadded⟩

theorem YieldsOk.bind {m : ExceptT Hint.Problem Adding α} {f : α → ExceptT Hint.Problem Adding β}
    (hm : YieldsOk P m) (hf : ∀ a, P a → YieldsOk Q (f a)) : YieldsOk Q (m >>= f) := by
  intro added hadded
  have hfirst := hm added hadded
  rw [ExceptT.run_bind, StateT.run_bind]
  generalize m.run.run added = result at hfirst ⊢
  obtain ⟨outcome, after⟩ := result
  cases outcome with
  | error e =>
    have hfails : ∀ b : β, (Except.error e : Except Hint.Problem β) = .ok b → Q b := by simp
    exact ⟨hfails, hfirst.2⟩
  | ok a => exact hf a (hfirst.1 a rfl) after hfirst.2

theorem YieldsOk.mapM {f : α → ExceptT Hint.Problem Adding β} {xs : List α}
    (hf : ∀ x ∈ xs, YieldsOk Q (f x)) : YieldsOk (fun ys => ∀ y ∈ ys, Q y) (xs.mapM f) := by
  induction xs with
  | nil => exact .pure (by simp)
  | cons x xs ih =>
    obtain ⟨hx, hxs⟩ := List.forall_mem_cons.1 hf
    rw [List.mapM_cons]
    exact hx.bind fun y hy => (ih hxs).bind fun ys hys => .pure (List.forall_mem_cons.2 ⟨hy, hys⟩)

end Yields

/-! ### Names and hints -/

namespace Scope

/-- A scope in which every import that a name may need is usable. -/
structure Usable (scope : Scope) : Prop where
  /-- The imports of the stub and of the module, as the stub has them. -/
  own : Import.AllUsable (scope.available [])
  /-- Those of the generics. -/
  generics : ∀ name generic, scope.settings.genericName? name = some generic →
    (Import.member scope.settings.genericModule generic none).isUsable = true
  /-- Those of other modules, as the stub would have them. -/
  foreign : ∀ m ∈ scope.index.modules, ∀ i ∈ m.imports, (i.absolutize m.package).isUsable = true
  /-- The modules of classes, from which they are drawn. -/
  classes : ∀ c ∈ scope.index.classes, Import.isOrigin c.module = true

variable {scope : Scope} {added : List Import} {dotted : String}

theorem Usable.available (h : scope.Usable) (hadded : Import.AllUsable added) :
    Import.AllUsable (scope.available added) := by
  intro i hi
  rw [← List.nil_append added, available_append, List.mem_append] at hi
  exact hi.elim (h.own i) (hadded i)

/-- A name that is reused may start an expression. -/
theorem Usable.isReference_boundTo? (h : scope.Usable) (hadded : Import.AllUsable added) {target asName : String}
    (hbound : scope.boundTo? added target = some asName) : isReference asName = true := by
  obtain ⟨i, hi, -, -, hname⟩ := boundTo?_eq_some hbound
  exact Import.isReference_of_isUsable (h.available hadded i hi) hname

/-- The import of another module that is taken over is usable. -/
theorem Usable.isUsable_foreignSite? (h : scope.Usable) {name : String} {site : ImportSite}
    (hsite : scope.foreignSite? name = some site) :
    (site.stmt.absolutize site.module.package).isUsable = true := by
  obtain ⟨hmem, -⟩ := List.mem_filter.1 (MatchPolicy.pick_mem hsite)
  obtain ⟨m, hm, hmem⟩ := List.mem_flatMap.1 hmem
  obtain ⟨i, hi, rfl⟩ := List.mem_map.1 hmem
  exact h.foreign m hm i (List.mem_filter.1 hi).1

/-- **A name that may start an expression is spelled as one**, and what that needs is usable. -/
theorem Usable.spelling (h : scope.Usable) (hadded : Import.AllUsable added) (hdotted : isReference dotted = true) :
    isReference (scope.spelling added dotted).text = true ∧
      ∀ i ∈ (scope.spelling added dotted).added, i.isUsable = true := by
  have hs := scope.spelledAs_spelling added dotted
  generalize scope.spelling added dotted = s at hs
  cases hs with
  | own | bound | unknown => exact ⟨hdotted, by simp⟩
  | generic _ hgeneric =>
    have husable := h.generics _ _ hgeneric.2
    rw [genericSpelling]
    refine ⟨Import.isReference_of_isUsable husable rfl, fun i hi => ?_⟩
    split at hi
    · cases hi
    · exact Option.some.inj hi ▸ husable
  | @foreign site _ _ _ hsite =>
    have husable := h.isUsable_foreignSite? hsite
    cases hbound : scope.boundTo? added (site.stmt.absolutize site.module.package).qualified with
    | some asName =>
      have hname := h.isReference_boundTo? hadded hbound
      simp only [foreignSpelling, hbound]
      exact ⟨Hint.isReference_cons_uncons hname (Hint.isPath_of_isReference hdotted), by simp⟩
    | none =>
      simp only [foreignSpelling, hbound]
      exact ⟨hdotted, by simpa using husable⟩
  | @ofClass c _ _ _ _ hclass =>
    have hmem := SourceIndex.classesNamed_subset (MatchPolicy.pick_mem hclass.2)
    have husable := Hint.isUsable_member (h.classes c hmem) hdotted
    by_cases hmodule : c.module = scope.module.name
    · simp only [classSpelling, if_pos hmodule]
      exact ⟨hdotted, by simp⟩
    cases hbound : scope.boundTo? added c.qualified with
    | some asName =>
      simp only [classSpelling, if_neg hmodule, hbound]
      exact ⟨h.isReference_boundTo? hadded hbound, by simp⟩
    | none =>
      simp only [classSpelling, if_neg hmodule, hbound]
      exact ⟨hdotted, by simpa using husable⟩

theorem yields_localizeName (h : scope.Usable) (hdotted : isReference dotted = true) :
    Yields (isReference · = true) (scope.localizeName dotted) := by
  intro added hadded
  have hspelled := h.spelling hadded hdotted
  refine ⟨hspelled.1, fun i hi => ?_⟩
  rcases List.mem_append.1 hi with hi | hi
  · exact hadded i hi
  · exact hspelled.2 i (by simpa using hi)

open Hint in
mutual
/-- **A hint that is written as an expression is spelled as one.** -/
theorem yields_localize (h : scope.Usable) : ∀ {hint : Hint}, hint.isWritable = true →
    Yields (·.isWritable = true) (scope.localize hint)
  | .name path, hhint => (yields_localizeName h hhint).bind fun _ hname => .pure hname
  | .subscript head args, hhint => by
    simp only [isWritable, Bool.and_eq_true] at hhint
    refine (yields_localizeName h hhint.1.1).bind fun name hname => ?_
    split
    · exact .pure (by simp [isWritable, hname, hhint.1.2, hhint.2])
    · refine (yields_localizeAll h hhint.2).bind fun more hmore => .pure ?_
      simp only [isWritable, hname, hmore.1, hmore.2, hhint.1.2, Bool.and_self]
  | .list items, hhint => (yields_localizeAll h hhint).bind fun _ hmore => .pure hmore.1
  | .union members, hhint => by
    simp only [isWritable, Bool.and_eq_true] at hhint
    refine (yields_localizeAll h hhint.2).bind fun more hmore => .pure ?_
    simp only [isWritable, hmore.1, hmore.2, hhint.1, Bool.and_self]
  | .literal text, hhint => .pure hhint

theorem yields_localizeAll (h : scope.Usable) : ∀ {hints : List Hint}, areWritable hints = true →
    Yields (fun more => areWritable more = true ∧ more.isEmpty = hints.isEmpty)
      (Hint.mapNamesAllM scope.localizeName hints)
  | [], _ => .pure ⟨rfl, rfl⟩
  | hint :: hints, hall => by
    simp only [areWritable, Bool.and_eq_true] at hall
    refine (yields_localize h hall.1).bind fun one hone => ?_
    refine (yields_localizeAll h hall.2).bind fun more hmore => .pure ?_
    simp [areWritable, hone, hmore.1]
end

end Scope

end TypedStubs
