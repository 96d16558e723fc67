import TypedStubs.Text.Cut

/-! # Cuts

A text that is cut at a character stands again when the parts are put around that character
(`cutChars_eq_some`, `cutLast_eq_some`), and parts that are put around one that the part in question does
not hold are cut there (`cutChars_append`, `cutLast_append`).  A text that is not cut does not hold it.  What
stands before a given end is what that end was put behind (`before?_eq_some_iff`).
-/
namespace TypedStubs.Text

theorem cutChars_eq_some {c : Char} {cs before after : List Char}
    (h : cutChars [c] cs = some (before, after)) : cs = before ++ c :: after ∧ c ∉ before := by
  induction cs generalizing before with
  | nil => simp [cutChars] at h
  | cons d cs ih =>
    rw [cutChars] at h
    split at h
    · next hd =>
      obtain rfl : c = d := by simpa using hd
      obtain ⟨rfl, rfl⟩ := Prod.mk.inj (Option.some.inj h)
      exact ⟨rfl, List.not_mem_nil⟩
    · next hd =>
      obtain ⟨⟨before', after'⟩, hcut, heq⟩ := Option.map_eq_some_iff.1 h
      obtain ⟨rfl, rfl⟩ := Prod.mk.inj heq
      obtain ⟨rfl, hnot⟩ := ih hcut
      have hne : c ≠ d := by simpa using hd
      exact ⟨rfl, by simp [hne, hnot]⟩

theorem cutChars_eq_none {c : Char} {cs : List Char} (h : cutChars [c] cs = none) : c ∉ cs := by
  induction cs with
  | nil => exact List.not_mem_nil
  | cons d cs ih =>
    rw [cutChars] at h
    split at h
    · cases h
    · next hd =>
      have hne : c ≠ d := by simpa using hd
      have hcut := Option.map_eq_none_iff.1 h
      simp [hne, ih hcut]

theorem cutLast_eq_some {c : Char} {s before after : String} (h : cutLast c s = some (before, after)) :
    s.toList = before.toList ++ c :: after.toList ∧ c ∉ after.toList := by
  obtain ⟨⟨xs, ys⟩, hlast, heq⟩ := Option.map_eq_some_iff.1 h
  obtain ⟨rfl, rfl⟩ := Prod.mk.inj heq
  obtain ⟨⟨xs', ys'⟩, hcut, heq⟩ := Option.map_eq_some_iff.1 hlast
  obtain ⟨rfl, rfl⟩ := Prod.mk.inj heq
  obtain ⟨hsplit, hnot⟩ := cutChars_eq_some hcut
  have := congrArg List.reverse hsplit
  simp only [List.reverse_reverse, List.reverse_append, List.reverse_cons, List.append_assoc,
    List.singleton_append] at this
  simpa [this] using hnot

theorem cutLast_eq_none {c : Char} {s : String} (h : cutLast c s = none) : c ∉ s.toList := by
  have hcut := Option.map_eq_none_iff.1 (Option.map_eq_none_iff.1 h)
  simpa using cutChars_eq_none hcut

theorem cutChars_append {c : Char} {before : List Char} (h : c ∉ before) (after : List Char) :
    cutChars [c] (before ++ c :: after) = some (before, after) := by
  induction before with
  | nil => simp [cutChars]
  | cons d before ih =>
    have hne : c ≠ d := fun heq => h (heq ▸ List.mem_cons_self)
    have hrest := ih fun hmem => h (List.mem_cons_of_mem d hmem)
    simp [cutChars, hrest, hne]

theorem cutLast_append {c : Char} {after : String} (h : c ∉ after.toList) (before : String) :
    cutLast c (before ++ String.singleton c ++ after) = some (before, after) := by
  have hrev : c ∉ after.toList.reverse := by simpa using h
  simp [cutLast, cutLastChars, cutChars_append hrev]

theorem before?_eq_some_iff {tail s front : String} :
    before? tail s = some front ↔ s = front ++ tail := by
  rw [before?]
  split
  · next hsuffix =>
    obtain ⟨cs, hcs⟩ := List.isSuffixOf_iff_suffix.1 hsuffix
    have htake : s.toList.take (s.toList.length - tail.toList.length) = cs := by
      rw [← hcs]
      simp
    rw [htake, Option.some.injEq, ← String.toList_inj, ← String.toList_inj, ← hcs]
    simp
  · next hsuffix =>
    refine iff_of_false (fun h => Option.some_ne_none _ h.symm) fun h => hsuffix ?_
    rw [h, String.toList_append]
    exact List.isSuffixOf_iff_suffix.2 (List.suffix_append _ _)

theorem before?_isSome_iff {tail s : String} :
    (before? tail s).isSome = true ↔ ∃ front, s = front ++ tail := by
  simp [Option.isSome_iff_exists, before?_eq_some_iff]

end TypedStubs.Text
