import TypedStubs.Proofs.Hint.Renaming
import TypedStubs.Proofs.Stub.Meaning
import TypedStubs.Source.Reader
import TypedStubs.Stub.Emission

/-! # Imports that are added

The names of a stub are asked for one by one or with the hints that they stand in.  Either way they are
spelled one after the other (`Scope.answered_eq`), and an import is added when one is missing.

What is added binds a name that is free.  Before an import of another module or of a class is added, its
target is looked for among the imports that are there, so no target is imported twice.  The import of a
generic is added without a look: if the generic is there under another name, it gets a second one
(`Scope.added_imports_new`, `Scope.generic_gets_second_name`).
-/
namespace TypedStubs

/-- What the names of a stub are asked for by. -/
inductive Request where
  /-- A dotted name. -/
  | name (dotted : String)
  /-- A hint. -/
  | hint (h : Hint)

/-- The names that a request asks for, in order. -/
def Request.names : Request → List String
  | .name dotted => [dotted]
  | .hint h => h.names

/-- Whether an index holds modules as they are read, none of them with a dot at the end of its name. -/
def SourceIndex.IsRead (index : SourceIndex) : Prop :=
  ∀ m ∈ index.modules, ∃ name path isPackage source,
    Text.before? "." name = none ∧ m = .read name path isPackage source

/-- A class that is read is that of a statement. -/
theorem exists_of_mem_read {name path source : String} {isPackage : Bool} {c : SourceClass}
    (h : c ∈ (SourceModule.read name path isPackage source).classes) :
    ∃ head decorators body, c = classOf name head decorators body := by
  obtain ⟨declaration, hmem, hclass⟩ := List.mem_filterMap.1 h
  obtain ⟨stmt, -, hstmt⟩ := List.mem_flatMap.1 hmem
  split at hclass
  · obtain rfl := Option.some.inj hclass
    unfold declarationsOf at hstmt
    split at hstmt
    · next head decorators body =>
      exact ⟨head, decorators, body, Declaration.ofClass.inj (List.mem_singleton.1 hstmt)⟩
    · cases List.mem_singleton.1 hstmt
    · obtain ⟨a, -, ha⟩ := List.mem_map.1 hstmt
      cases ha
  · cases hclass

/-- A class that is read is a member of its module. -/
theorem SourceIndex.IsRead.isPlaced {index : SourceIndex} (h : index.IsRead) :
    ∀ c ∈ index.classes, c.IsPlaced := by
  intro c hc
  obtain ⟨m, hm, hc⟩ := List.mem_flatMap.1 hc
  obtain ⟨name, path, isPackage, source, hname, rfl⟩ := h m hm
  obtain ⟨head, decorators, body, rfl⟩ := exists_of_mem_read hc
  simp [SourceClass.IsPlaced, Import.qualified, classOf, hname]

namespace Scope

variable {scope : Scope} {added before after : List Import} {i : Import}

/-- The answer to a request; missing imports are added. -/
def answer (scope : Scope) : Request → Adding Unit
  | .name dotted => discard (scope.localizeName dotted)
  | .hint h => discard (scope.localize h)

/-- The imports that were added when requests were answered one after the other. -/
def answered (scope : Scope) (requests : List Request) : List Import :=
  ((requests.forM scope.answer).run []).2

/-- Calls that are answered spell the names that were asked for. -/
theorem addedBy_of_answers {calls : List Hint.Call} {added' : List Import}
    (h : Hint.Answers scope.localizeName added calls added') :
    added' = scope.addedBy added (calls.map (·.asked)) := by
  induction calls generalizing added with
  | nil => exact h.symm
  | cons call calls ih =>
    obtain ⟨middle, hcall, hrest⟩ := h
    obtain ⟨-, rfl⟩ := Prod.mk.inj hcall
    rw [List.map_cons, addedBy_cons]
    exact ih hrest

/-- Going through a hint spells its names. -/
theorem localize_run (scope : Scope) (h : Hint) (added : List Import) :
    ((scope.localize h).run added).2 = scope.addedBy added h.names := by
  obtain ⟨calls, renamed, added', hasks, hrenamed⟩ := Hint.mapNamesM_asks scope.localizeName h added
  rw [localize, hasks.plain_run, ← hrenamed.asked]
  exact addedBy_of_answers hasks.answers

theorem answer_run (scope : Scope) (request : Request) (added : List Import) :
    ((scope.answer request).run added).2 = scope.addedBy added request.names := by
  cases request with
  | name dotted => rfl
  | hint h => exact localize_run scope h added

theorem forM_answer_run (scope : Scope) (requests : List Request) (added : List Import) :
    ((requests.forM scope.answer).run added).2 =
      scope.addedBy added (requests.flatMap (·.names)) := by
  induction requests generalizing added with
  | nil => rfl
  | cons request requests ih =>
    rw [List.flatMap_cons, addedBy_append, ← answer_run]
    exact ih _

/-- **Requests spell the names they ask for, one after the other.** -/
theorem answered_eq (scope : Scope) (requests : List Request) :
    scope.answered requests = scope.addedBy [] (requests.flatMap (·.names)) :=
  forM_answer_run scope requests []

/-! ### One name -/

/-- Whether an import is that of a generic. -/
def IsGenericImport (scope : Scope) (i : Import) : Prop :=
  ∃ asked name, scope.settings.genericName? asked = some name ∧
    i = .member scope.settings.genericModule name none

/-- What holds of an import that is added to others. -/
structure AddsNew (scope : Scope) (before : List Import) (i : Import) : Prop where
  /-- It binds a name that is free. -/
  unbound : ∃ name, i.bound? = some name ∧ scope.binds before name = false
  /-- If its target was there, it is the import of a generic, or of a class whose qualified name is not
  that of a member of its module. -/
  repeats : ∀ j ∈ scope.available before, j.isStar = false → j.qualified = i.qualified →
    scope.IsGenericImport i ∨
      ∃ c ∈ scope.index.classes, ¬ c.IsPlaced ∧ i = .member c.module c.name none

/-- A target that is not found is that of no import. -/
theorem qualified_ne_of_boundTo? {target : String} (h : scope.boundTo? added target = none) {j : Import}
    (hj : j ∈ scope.available added) (hstar : j.isStar = false) : j.qualified ≠ target := by
  intro htarget
  have hfound : ((scope.available added).find? fun i => !i.isStar && i.qualified == target).isSome = true :=
    List.find?_isSome.2 ⟨j, hj, by simp [hstar, htarget]⟩
  obtain ⟨k, hk⟩ := Option.isSome_iff_exists.1 hfound
  -- what was found is no star import, so it binds a name
  rw [boundTo?, hk, Option.bind_some, Import.bound?_eq_none_iff] at h
  have hkstar := List.find?_some hk
  simp [h] at hkstar

/-- A missing import is new. -/
theorem SpelledAs.addsNew {dotted : String} {s : Spelling} (h : scope.SpelledAs added dotted s)
    (hi : i ∈ s.added) : scope.AddsNew added i where
  unbound := h.added_unbound i hi
  repeats := by
    intro j hj hstar htarget
    cases h with
    | own | bound | unknown => cases hi
    | @generic name _ hgeneric =>
      simp only [genericSpelling, Option.mem_def] at hi
      split at hi
      · cases hi
      · cases hi
        exact .inl ⟨dotted, name, hgeneric.2, rfl⟩
    | @foreign site _ _ _ hsite =>
      simp only [foreignSpelling, Option.mem_def] at hi
      split at hi
      · cases hi
      · next hnone =>
        cases hi
        exact absurd htarget (qualified_ne_of_boundTo? hnone hj hstar)
    | @ofClass c _ _ _ _ hclass =>
      simp only [classSpelling, Option.mem_def] at hi
      split at hi
      · cases hi
      split at hi
      · cases hi
      · next hnone =>
        cases hi
        have hmem := MatchPolicy.pick_mem hclass.2
        have hname : c.name = dotted := by simpa using (List.mem_filter.1 hmem).2
        subst hname
        -- the class was looked for by its qualified name
        refine .inr ⟨c, SourceIndex.classesNamed_subset hmem, fun hplaced => ?_, rfl⟩
        exact qualified_ne_of_boundTo? hnone hj hstar (htarget.trans hplaced.symm)

/-! ### Names one after the other -/

theorem exists_addedBy (scope : Scope) (added : List Import) (names : List String) :
    ∃ more, scope.addedBy added names = added ++ more := by
  induction names generalizing added with
  | nil => exact ⟨[], (List.append_nil added).symm⟩
  | cons dotted names ih =>
    obtain ⟨more, hmore⟩ := ih (added ++ (scope.spelling added dotted).added.toList)
    exact ⟨_, by rw [addedBy_cons, hmore, List.append_assoc]⟩

/-- Every import that is added while names are spelled is new at that moment. -/
theorem addsNew_of_addedBy {names : List String}
    (h : scope.addedBy added names = added ++ (before ++ i :: after)) :
    scope.AddsNew (added ++ before) i := by
  induction names generalizing added before with
  | nil => simp at h
  | cons dotted names ih =>
    rw [addedBy_cons] at h
    have hspelled := spelledAs_spelling scope added dotted
    cases hadded : (scope.spelling added dotted).added with
    | none =>
      rw [hadded, Option.toList_none, List.append_nil] at h
      exact ih h
    | some k =>
      rw [hadded, Option.toList_some] at h
      -- the import that this name needs is the first of those that are added
      obtain ⟨more, hmore⟩ := exists_addedBy scope (added ++ [k]) names
      rw [hmore, List.append_assoc, List.append_cancel_left_eq, List.singleton_append] at h
      cases before with
      | nil =>
        obtain ⟨rfl, -⟩ := List.cons.inj h
        rw [List.append_nil]
        exact hspelled.addsNew hadded
      | cons first before =>
        obtain ⟨rfl, rfl⟩ := List.cons.inj h
        rw [← List.singleton_append, ← List.append_assoc]
        exact ih hmore

/-- **An import is added for a free name, and only a generic for the second time.**  When requests are
answered one after the other, an import that is added binds a name that no import binds that was there
at that moment.  No import other than a star import that was there has its target, unless it is the import
of a generic, or of a class whose qualified name is not that of a member of its module.  There is no such
class in an index of modules as they are read. -/
theorem added_imports_new (scope : Scope) (requests : List Request) (before after : List Import) (i : Import)
    (h : scope.answered requests = before ++ i :: after) :
    scope.AddsNew before i ∧
      (scope.index.IsRead → ∀ j ∈ scope.available before, j.isStar = false →
        j.qualified = i.qualified → scope.IsGenericImport i) := by
  rw [answered_eq] at h
  have hnew : scope.AddsNew ([] ++ before) i := addsNew_of_addedBy h
  rw [List.nil_append] at hnew
  refine ⟨hnew, fun hread j hj hstar htarget => ?_⟩
  rcases hnew.repeats j hj hstar htarget with hgeneric | ⟨c, hc, hplaced, -⟩
  · exact hgeneric
  · exact absurd (hread.isPlaced c hc) hplaced

/-- A module that imports a generic under another name. -/
def shelf : Scope where
  settings := .standard
  index := ⟨[.read "m" "m.py" false "from typing import List as L\n"]⟩
  module := .read "m" "m.py" false "from typing import List as L\n"
  existing := []
  existingNames := []

theorem shelf_isRead : shelf.index.IsRead := fun _ hm =>
  ⟨_, _, _, _, by decide +kernel, List.mem_singleton.1 hm⟩

theorem added_imports_new_shelf :
    shelf.answered [.name "Optional", .hint (.subscript "List" [.name "int"])] =
      [.member "typing" "Optional" none] ++ .member "typing" "List" none :: [] ∧
    shelf.AddsNew [.member "typing" "Optional" none] (.member "typing" "List" none) ∧
    shelf.IsGenericImport (.member "typing" "List" none) := by
  have hanswered : shelf.answered [.name "Optional", .hint (.subscript "List" [.name "int"])] =
      [.member "typing" "Optional" none] ++ .member "typing" "List" none :: [] := by decide +kernel
  obtain ⟨hnew, hgeneric⟩ := added_imports_new shelf _ _ _ _ hanswered
  refine ⟨hanswered, hnew, ?_⟩
  exact hgeneric shelf_isRead (.member "typing" "List" (some "L")) (by decide +kernel) rfl (by decide +kernel)

/-- **A generic that is there under another name gets a second one.** -/
theorem generic_gets_second_name :
    shelf.index.IsRead ∧
    Import.member "typing" "List" (some "L") ∈ shelf.available [] ∧
    shelf.answered [.name "List"] = [.member "typing" "List" none] ∧
    (Import.member "typing" "List" (some "L")).qualified =
      (Import.member "typing" "List" none).qualified :=
  ⟨shelf_isRead, by decide +kernel, by decide +kernel, by decide +kernel⟩

end Scope
end TypedStubs
