import TypedStubs.Proofs.Import.Reading
import TypedStubs.Proofs.Stub.Place

/-! # Stubs are read again as they were written

A stub whose imports are made of words and whose items are put together from well-formed pieces is read
again from its text: the items are the same, and the imports are the same in the order of their block
(`Stub.WellFormed.parse_render`).  So its text stays the same when it is read and written again
(`Stub.WellFormed.render_again`).
-/
namespace TypedStubs

open Syntax

namespace Stub

/-! ## Import blocks -/

/-- Lines of groups of imports are read as the groups. -/
theorem exists_importing {groups : List (List Import)} {lines : List String}
    (h : List.Forall₂ Import.IsGroup groups lines) (hne : groups ≠ [])
    (hreadable : ∀ i ∈ groups.flatten, i.isReadable = true) :
    ∃ stmts, Stretch 0 (unlines lines).toList stmts ∧ stmts.flatMap importsOf = groups.flatten ∧
      stmts.filter (!isImporting ·) = [] := by
  induction h with
  | nil => exact absurd rfl hne
  | @cons group line groups lines hgroup hrest ih =>
    obtain ⟨place, hfirst⟩ := Import.stretch_group hgroup fun i hi =>
      hreadable i (List.mem_append_left _ hi)
    by_cases hnil : groups = []
    · subst hnil
      obtain rfl := List.forall₂_nil_left_iff.1 hrest
      refine ⟨[.importing place group], by simpa using hfirst, by simp [importsOf], by simp [isImporting]⟩
    · obtain ⟨stmts, hstretch, himports, honly⟩ := ih hnil fun i hi =>
        hreadable i (List.mem_append_right _ hi)
      refine ⟨.importing place group :: stmts, ?_, ?_, ?_⟩
      · have := hfirst.append hstretch
        simpa using this
      · simp [importsOf, himports]
      · simpa [isImporting] using honly

/-- An import block is read as its imports. -/
theorem exists_block {imports : List Import} (hne : imports ≠ [])
    (hreadable : ∀ i ∈ imports, i.isReadable = true) :
    ∃ stmts, Stretch 0 (unlines (Import.block imports)).toList stmts ∧
      stmts.flatMap importsOf = Import.arranged imports ∧ stmts.filter (!isImporting ·) = [] := by
  refine exists_importing (Import.isGroup_block imports) ?_ fun i hi =>
    hreadable i (Import.mem_of_mem_arranged hi)
  intro hnil
  obtain ⟨i, more, rfl⟩ := List.exists_cons_of_ne_nil hne
  obtain ⟨j, hj, -⟩ := Import.exists_mem_arranged (List.mem_cons_self (a := i) (l := more))
  rw [Import.arranged, hnil] at hj
  cases hj

/-! ## Whole stubs -/

/-- A stub of well-formed pieces. -/
structure WellFormed (stub : Stub) : Prop where
  /-- Its imports are made of words. -/
  imports : ∀ i ∈ stub.imports, i.isReadable = true
  /-- Its items are put together from well-formed pieces. -/
  items : ∀ item ∈ stub.items, item.WellFormed 0

/-- What statements of imports and statements that make items are read as. -/
theorem parse_of_stretch {cs : List Char} {importing stmts : List Stmt} {imports : List Import}
    {items : List StubItem} (h : Stretch 0 cs (importing ++ stmts))
    (himports : importing.flatMap importsOf = imports) (honly : importing.filter (!isImporting ·) = [])
    (hmade : itemsOfAll stmts = .ok items) (hnone : ∀ s ∈ stmts, isImporting s = false) :
    Stub.parse (String.ofList cs) = .ok ⟨imports, items⟩ := by
  have hempty : stmts.flatMap importsOf = [] := by
    refine List.flatMap_eq_nil_iff.2 fun s hs => ?_
    have := hnone s hs
    cases s <;> simp_all [isImporting, importsOf]
  have hfilter : stmts.filter (!isImporting ·) = stmts :=
    List.filter_eq_self.2 fun s hs => by simp [hnone s hs]
  rw [Stub.parse, h.parse]
  simp only [List.flatMap_append, List.filter_append, himports, honly, hempty, hfilter,
    List.append_nil, List.nil_append, hmade]
  rfl

theorem parse_empty : Stub.parse "" = .ok ⟨[], []⟩ := by
  have hblock : readBlock 0 [] = some (blockEnd 0 []) := readBlock_end fun l more hl => by cases hl
  have hparse : parse? "" = some [] := by
    simp [parse?, scanLines_nil, hblock, blockEnd, closingComments, commentBlock]
  rw [Stub.parse, hparse]
  rfl

namespace WellFormed

variable {stub : Stub}

/-- **A stub of well-formed pieces is read again from its text, its imports in the order of their
block.** -/
theorem parse_render (h : stub.WellFormed) :
    Stub.parse stub.render = .ok ⟨Import.arranged stub.imports, stub.items⟩ := by
  obtain ⟨imports, items⟩ := stub
  have hplaces : ∀ item ∈ items, InPlace 0 item := fun item hi => (h.items item hi).inPlace
  rw [← String.ofList_toList (s := render _)]
  by_cases hitems : items = []
  · subst hitems
    by_cases himports : imports = []
    · subst himports
      exact parse_empty
    · obtain ⟨importing, hblock, hread, honly⟩ := exists_block himports h.imports
      have htext : (render ⟨imports, []⟩).toList = (unlines (Import.block imports)).toList := by
        simp [render, body, itemLines]
      rw [htext]
      have hstretch : Stretch 0 (unlines (Import.block imports)).toList (importing ++ []) := by
        simpa using hblock
      exact parse_of_stretch hstretch hread honly rfl (by simp)
  · obtain ⟨stmts, -, hbody⟩ := readsItems_itemLines hitems hplaces
    rw [spaces_zero] at hbody
    by_cases himports : imports = []
    · subst himports
      have htext : (render ⟨[], items⟩).toList = (unlines (itemLines "" items)).toList := by
        simp [render, body, Import.block, Import.blockLines]
      rw [htext]
      have hstretch : Stretch 0 (unlines (itemLines "" items)).toList ([] ++ stmts) := hbody.stretch
      exact parse_of_stretch hstretch rfl rfl hbody.made (hbody.notImporting rfl)
    · obtain ⟨importing, hblock, hread, honly⟩ := exists_block himports h.imports
      have htext : (render ⟨imports, items⟩).toList = (unlines (Import.block imports)).toList ++
          '\n' :: (unlines (itemLines "" items)).toList := by
        simp [render, body, himports, hitems]
      rw [htext]
      exact parse_of_stretch (hblock.append hbody.stretch.blank) hread honly hbody.made
        (hbody.notImporting rfl)

/-- Reading a stub of well-formed pieces again keeps its imports, apart from their order. -/
theorem mem_arranged (h : stub.WellFormed) (i : Import) :
    i ∈ Import.arranged stub.imports ↔ i ∈ stub.imports := by
  refine ⟨Import.mem_of_mem_arranged, fun hi => ?_⟩
  obtain ⟨j, hj, hrender⟩ := Import.exists_mem_arranged hi
  have hsame := Import.render_injective (h.imports j (Import.mem_of_mem_arranged hj)) (h.imports i hi) hrender
  exact hsame ▸ hj

/-- **The text of a stub of well-formed pieces stays as it is when it is read and written again**, with
the same items and the same imports. -/
theorem render_again (h : stub.WellFormed) :
    ∃ again, Stub.parse stub.render = .ok again ∧ again.render = stub.render ∧
      again.items = stub.items ∧ ∀ i, i ∈ again.imports ↔ i ∈ stub.imports := by
  refine ⟨_, h.parse_render, ?_, rfl, h.mem_arranged⟩
  have hempty : (Import.arranged stub.imports).isEmpty = stub.imports.isEmpty := by
    rw [Bool.eq_iff_iff, List.isEmpty_iff, List.isEmpty_iff, List.eq_nil_iff_forall_not_mem,
      List.eq_nil_iff_forall_not_mem]
    simp only [h.mem_arranged]
  simp only [render, body, Import.block_arranged, hempty]

end WellFormed

end Stub

end TypedStubs
