import Mathlib.Data.List.Nodup
import TypedStubs.Proofs.FileTree.Access

/-! # The files of a tree

In a well-formed tree every entry has a location of its own, with names on it that a path can be made
of.  Such a tree stays well formed when directories are made (`Makes.wellFormed`), and the files that
are listed below a location are those that stand there (`mem_filesBelow`), each once.
-/
namespace TypedStubs.FileTree

variable {t t' : FileTree} {place : Location} {path : String}

/-- A tree whose entries have names that paths are made of, and locations of their own. -/
structure WellFormed (t : FileTree) : Prop where
  /-- The working directory has names on its way. -/
  home : ∀ name ∈ t.home, Path.IsName name
  /-- Every entry has names on its way. -/
  names : ∀ p ∈ t.entries, ∀ name ∈ p.1, Path.IsName name
  /-- No two entries share a location. -/
  distinct : (t.entries.map (·.1)).Nodup

/-! ## Entries and locations -/

theorem mem_iff_lookup {entries : List (Location × FileEntry)} (h : (entries.map (·.1)).Nodup)
    {entry : FileEntry} : (place, entry) ∈ entries ↔ entries.lookup place = some entry := by
  induction entries with
  | nil => simp
  | cons first rest ih =>
    obtain ⟨p, e⟩ := first
    obtain ⟨hnew, hrest⟩ := List.nodup_cons.1 h
    rw [List.mem_cons, lookup_cons, ih hrest]
    by_cases hp : place = p
    · subst hp
      have hnone : rest.lookup place ≠ some entry := fun hsome =>
        hnew (List.mem_map.2 ⟨(place, entry), (ih hrest).2 hsome, rfl⟩)
      simp [hnone, eq_comm]
    · simp [hp]

theorem map_fst_putEntry (place : Location) (entry : FileEntry)
    (entries : List (Location × FileEntry)) :
    (putEntry place entry entries).map (·.1) =
      if place ∈ entries.map (·.1) then entries.map (·.1) else entries.map (·.1) ++ [place] := by
  induction entries with
  | nil => simp [putEntry]
  | cons first rest ih =>
    obtain ⟨p, e⟩ := first
    by_cases hp : p = place
    · simp [putEntry, hp]
    · rw [putEntry, if_neg hp, List.map_cons, ih]
      by_cases hmem : place ∈ rest.map (·.1)
      · simp [hmem]
      · simp [hmem, Ne.symm hp]

theorem WellFormed.put (h : t.WellFormed) (hplace : ∀ name ∈ place, Path.IsName name)
    (entry : FileEntry) : (t.put place entry).WellFormed where
  home := h.home
  names := by
    intro p hp
    have hmem : p.1 ∈ (putEntry place entry t.entries).map (·.1) := List.mem_map_of_mem hp
    rw [map_fst_putEntry] at hmem
    have hcases : p.1 ∈ t.entries.map (·.1) ∨ p.1 = place := by
      split at hmem
      · exact .inl hmem
      · simpa using hmem
    rcases hcases with hmem | hmem
    · obtain ⟨q, hq, heq⟩ := List.mem_map.1 hmem
      exact heq ▸ h.names q hq
    · exact hmem ▸ hplace
  distinct := by
    show ((putEntry place entry t.entries).map (·.1)).Nodup
    rw [map_fst_putEntry]
    split
    · exact h.distinct
    · next hnew =>
      rw [List.nodup_append]
      refine ⟨h.distinct, List.pairwise_singleton _ _, fun p hp q hq heq => hnew ?_⟩
      rwa [← List.mem_singleton.1 hq, ← heq]

theorem WellFormed.isName_of_locate (h : t.WellFormed) (hlocate : t.locate path = .ok place) :
    ∀ name ∈ place, Path.IsName name := by
  have hempty := ne_empty_of_locate hlocate
  rw [locate, hempty] at hlocate
  refine walk_isName ?_ (fun step hstep => Text.not_mem_of_mem_splitOn hstep) hlocate
  split
  · simp
  · exact h.home

theorem Makes.wellFormed (h : Makes t t') (ht : t.WellFormed) : t'.WellFormed := by
  induction h with
  | nothing => exact ht
  | directory _ hplace _ ih => exact ih.put (ih.isName_of_locate hplace) .directory

theorem WellFormed.mem_of_contents? (h : t.WellFormed) {contents : ByteArray}
    (hcontents : t.contents? place = some contents) : (place, .file contents) ∈ t.entries := by
  rw [contents?_eq_some] at hcontents
  rw [mem_iff_lookup h.distinct, ← hcontents, at?, if_neg (ne_nil_of_at? hcontents (by simp))]

theorem WellFormed.isName_of_contents? (h : t.WellFormed)
    (hcontents : (t.contents? place).isSome = true) : ∀ name ∈ place, Path.IsName name := by
  obtain ⟨contents, hcontents⟩ := Option.isSome_iff_exists.1 hcontents
  exact h.names _ (h.mem_of_contents? hcontents)

/-! ## Files below a location -/

/-- The files listed below a location are those that stand there. -/
theorem mem_filesBelow (h : t.WellFormed) {names : Location} {contents : ByteArray} :
    (names, contents) ∈ t.filesBelow place ↔
      names ≠ [] ∧ t.contents? (place ++ names) = some contents := by
  have hat : (place ++ names, FileEntry.file contents) ∈ t.entries → names ≠ [] →
      t.contents? (place ++ names) = some contents := by
    intro hmem hne
    rwa [contents?_eq_some, at?, if_neg (by simp [hne]), ← mem_iff_lookup h.distinct]
  rw [filesBelow, List.mem_mergeSort, List.mem_filterMap]
  constructor
  · rintro ⟨⟨p, e⟩, hp, hsome⟩
    cases e with
    | directory => cases hsome
    | file c =>
      simp only at hsome
      split at hsome
      · next hbelow =>
        obtain ⟨rfl, rfl⟩ := Prod.mk.inj (Option.some.inj hsome)
        simp only [Bool.and_eq_true, List.isPrefixOf_iff_prefix, decide_eq_true_eq] at hbelow
        obtain ⟨⟨rest, rfl⟩, hlong⟩ := hbelow
        have hne : rest ≠ [] := by
          rintro rfl
          simp at hlong
        rw [List.drop_left] at hat ⊢
        exact ⟨hne, hat hp hne⟩
      · cases hsome
  · rintro ⟨hne, hcontents⟩
    refine ⟨(place ++ names, .file contents), h.mem_of_contents? hcontents, ?_⟩
    simp [List.length_pos_iff, hne]

/-- What is picked from a list stands in its order, and comes from no place twice. -/
theorem map_filterMap_sublist {α β γ : Type} {f : α → Option β} {g : β → γ} {h : α → γ} {l : List α}
    (hf : ∀ a b, f a = some b → g b = h a) : ((l.filterMap f).map g).Sublist (l.map h) := by
  induction l with
  | nil => exact .slnil
  | cons a l ih =>
    rw [List.filterMap_cons]
    cases hfa : f a with
    | none => exact ih.cons (h a)
    | some b =>
      rw [List.map_cons, List.map_cons, hf a b hfa]
      exact ih.cons_cons (h a)

/-- No file is listed twice. -/
theorem filesBelow_nodup (h : t.WellFormed) (place : Location) :
    ((t.filesBelow place).map (·.1)).Nodup := by
  rw [filesBelow, ((List.mergeSort_perm _ _).map _).nodup_iff]
  -- with the place in front of its names, a file is found where its entry stands
  refine List.Nodup.of_map (place ++ ·) ?_
  rw [List.map_map]
  refine h.distinct.sublist (map_filterMap_sublist fun p file hfile => ?_)
  obtain ⟨p, e⟩ := p
  cases e with
  | directory => cases hfile
  | file contents =>
    simp only at hfile
    split at hfile
    · next hbelow =>
      obtain rfl := Option.some.inj hfile
      simp only [Bool.and_eq_true, List.isPrefixOf_iff_prefix] at hbelow
      obtain ⟨rest, rfl⟩ := hbelow.1
      simp
    · cases hfile

end TypedStubs.FileTree
