import TypedStubs.Proofs.Path

/-! # Paths and their components

The pieces of a path that lead anywhere are its components.  Names that follow a path are put behind its
components (`components_append`), and its parent is what all but the last of them lead to
(`parent_append`).  The paths around it are those of its first components, each one shorter than the one
before (`outward_concat`).
-/
namespace TypedStubs.Path

variable {path base name last : String} {front names : List String}

/-- Whether a component is written as one piece, and only the root as an empty one. -/
def Component.IsStep (c : Component) : Prop := (c.text = "" → c = .root) ∧ '/' ∉ c.text.toList

theorem isStep_entry {name : String} (h : IsName name) : (Component.entry name).IsStep :=
  ⟨fun hempty => absurd hempty h.1, h.2.2.2⟩

/-- The component that a piece stands for, if it leads anywhere. -/
def step? (piece : String) : Option Component :=
  if piece = "" ∨ piece = "." then none
  else if piece = ".." then some .up
  else some (.entry piece)

theorem step?_eq_some {piece : String} {c : Component} (h : step? piece = some c) :
    c.text = piece ∧ piece ≠ "" ∧ piece ≠ "." ∧ c ≠ .root := by
  unfold step? at h
  split at h
  · cases h
  · next hnot =>
    obtain ⟨hempty, hdot⟩ := not_or.1 hnot
    split at h
    · next hup =>
      obtain rfl := Option.some.inj h
      exact ⟨hup.symm, hempty, hdot, by simp⟩
    · obtain rfl := Option.some.inj h
      exact ⟨rfl, hempty, hdot, by simp⟩

theorem components_top {piece : String} {rest : List String}
    (h : Text.splitOn '/' path = "" :: piece :: rest) :
    components path = .root :: (piece :: rest).filterMap step? := by
  rw [components, h]
  rfl

theorem components_here {rest : List String} (h : Text.splitOn '/' path = "." :: rest) :
    components path = .here :: rest.filterMap step? := by
  rw [components, h]
  rfl

theorem components_plain {piece : String} {rest : List String} (hempty : piece ≠ "")
    (hdot : piece ≠ ".") (h : Text.splitOn '/' path = piece :: rest) :
    components path = (piece :: rest).filterMap step? := by
  rw [components, h]
  split
  · next heq => exact absurd (List.cons.inj heq).1 hempty
  · next heq => exact absurd (List.cons.inj heq).1 hdot
  · rfl


theorem filterMap_step?_names (hnames : ∀ name ∈ names, IsName name) :
    names.filterMap step? = names.map .entry := by
  rw [← List.filterMap_eq_map]
  refine List.filterMap_congr fun name hname => ?_
  obtain ⟨hempty, hdot, hdots, -⟩ := hnames name hname
  simp [step?, hempty, hdot, hdots]

/-- A path followed by names has them behind its components. -/
theorem components_append (hbase : base ≠ "") (hne : names ≠ [])
    (hnames : ∀ name ∈ names, IsName name) :
    components (append base (Text.join "/" names)) = components base ++ names.map .entry := by
  obtain ⟨steps, hsteps, happend⟩ := splitOn_append_names base hne hnames
  have happend := happend (by simpa using hbase)
  -- an empty piece at the end of the base leads nowhere
  have hfront : ∀ {first : String} {rest : List String}, Text.splitOn '/' base = first :: rest →
      (first = "" → rest ≠ []) → ∃ more, Text.splitOn '/' (append base (Text.join "/" names)) =
        first :: (more ++ names) ∧ rest.filterMap step? = more.filterMap step? := by
    intro first rest hfirst hrest
    rw [hfirst] at hsteps
    rcases hsteps with rfl | hsteps
    · exact ⟨rest, happend, rfl⟩
    · cases steps with
      | nil =>
        obtain ⟨rfl, rfl⟩ := List.cons.inj hsteps
        exact absurd rfl (hrest rfl)
      | cons step steps =>
        obtain ⟨rfl, rfl⟩ := List.cons.inj hsteps
        exact ⟨steps, happend, by simp [step?]⟩
  have hstep := filterMap_step?_names hnames
  rcases pieces_cases base with rfl | ⟨-, piece, rest, hpieces⟩ | ⟨-, piece, rest, hpiece, hpieces⟩
  · exact absurd rfl hbase
  · obtain ⟨more, hmore, hrest⟩ := hfront hpieces fun _ => List.cons_ne_nil _ _
    obtain ⟨name, names', hnames'⟩ := List.exists_cons_of_ne_nil (List.append_ne_nil_of_right_ne_nil more hne)
    rw [hnames'] at hmore
    rw [components_top hpieces, components_top hmore, ← hnames', List.filterMap_append, hrest, hstep]
    rfl
  · obtain ⟨more, hmore, hrest⟩ := hfront hpieces fun heq => absurd heq hpiece
    by_cases hdot : piece = "."
    · subst hdot
      rw [components_here hpieces, components_here hmore, List.filterMap_append, hrest, hstep]
      rfl
    · rw [components_plain hpiece hdot hpieces, components_plain hpiece hdot hmore,
        List.filterMap_cons, List.filterMap_cons, List.filterMap_append, hrest, hstep]
      split <;> rfl

theorem isStep_of_mem_components {c : Component} (h : c ∈ components path) : c.IsStep := by
  have hpieces : ∀ {pieces : List String}, (∀ piece ∈ pieces, '/' ∉ piece.toList) →
      c ∈ pieces.filterMap step? → c.IsStep := by
    intro pieces hslash hc
    obtain ⟨piece, hpiece, hstep⟩ := List.mem_filterMap.1 hc
    obtain ⟨htext, hempty, -⟩ := step?_eq_some hstep
    exact ⟨fun htop => absurd (htext ▸ htop) hempty, htext ▸ hslash piece hpiece⟩
  have hslash : ∀ piece ∈ Text.splitOn '/' path, '/' ∉ piece.toList :=
    fun piece => Text.not_mem_of_mem_splitOn
  rcases pieces_cases path with rfl | ⟨-, piece, rest, heq⟩ | ⟨-, piece, rest, hpiece, heq⟩
  · cases h
  · rw [heq] at hslash
    rw [components_top heq] at h
    rcases List.mem_cons.1 h with rfl | h
    · exact ⟨fun _ => rfl, by decide⟩
    · exact hpieces (fun p hp => hslash p (List.mem_cons_of_mem _ hp)) h
  · rw [heq] at hslash
    by_cases hdot : piece = "."
    · subst hdot
      rw [components_here heq] at h
      rcases List.mem_cons.1 h with rfl | h
      · exact ⟨fun htop => absurd htop (by decide), by decide⟩
      · exact hpieces (fun p hp => hslash p (List.mem_cons_of_mem _ hp)) h
    · rw [components_plain hpiece hdot heq] at h
      exact hpieces hslash h


theorem components_ne_nil (h : path ≠ "") : components path ≠ [] := by
  rcases pieces_cases path with rfl | ⟨-, piece, rest, heq⟩ | ⟨-, piece, rest, hpiece, heq⟩
  · exact absurd rfl h
  · simp [components_top heq]
  · by_cases hdot : piece = "."
    · subst hdot
      simp [components_here heq]
    · have hstep : (step? piece).isSome = true := by
        unfold step?
        rw [if_neg (not_or.2 ⟨hpiece, hdot⟩)]
        split <;> rfl
      obtain ⟨c, hc⟩ := Option.isSome_iff_exists.1 hstep
      simp [components_plain hpiece hdot heq, hc]

/-! ## Parents -/

/-- A name at the end of a path has no slashes behind it. -/
theorem dropEndWhile_slash (hname : IsName name) (lead : String) :
    Text.dropEndWhile (· == '/') (lead ++ name).toList = (lead ++ name).toList := by
  obtain ⟨c, cs, hcs⟩ := List.exists_cons_of_ne_nil
    (show name.toList.reverse ≠ [] by simpa using hname.1)
  have hc : (c == '/') = false := by
    rw [beq_eq_false_iff_ne]
    rintro rfl
    have hmem : '/' ∈ name.toList.reverse := hcs ▸ List.mem_cons_self
    exact hname.2.2.2 (by simpa using hmem)
  rw [Text.dropEndWhile, String.toList_append, List.reverse_append, hcs, List.cons_append,
    List.dropWhile_cons, hc, if_neg Bool.false_ne_true, ← List.cons_append, ← hcs]
  simp

/-- A path with a name at its end. -/
theorem exists_append_eq (base : String) (front : List String) (last : String) :
    ∃ lead, append base (Text.join "/" (front ++ [last])) = lead ++ last := by
  obtain ⟨lead, hlead⟩ : ∃ lead, Text.join "/" (front ++ [last]) = lead ++ last := by
    by_cases hne : front = []
    · subst hne
      exact ⟨"", by simp [Text.join]⟩
    · exact ⟨_, Text.join_concat "/" hne last⟩
  rw [append, hlead]
  split
  · exact ⟨base ++ lead, (String.append_assoc ..).symm⟩
  · exact ⟨base ++ "/" ++ lead, (String.append_assoc ..).symm⟩

/-- What is cut off for the parent of a path with a name at its end. -/
theorem parent_eq {lead : String} (h : '/' ∉ last.toList) :
    parent (lead ++ "/" ++ last) =
      if (String.ofList (Text.dropEndWhile (· == '/') lead.toList)).isEmpty then "/"
      else String.ofList (Text.dropEndWhile (· == '/') lead.toList) := by
  rw [parent, show lead ++ "/" ++ last = lead ++ String.singleton '/' ++ last from rfl,
    Text.cutLast_append h]

/-- The parent of what names lead to is what all but the last lead to. -/
theorem parent_append (hne : front ≠ []) (hfront : ∀ name ∈ front, IsName name)
    (hlast : IsName last) :
    parent (append base (Text.join "/" (front ++ [last]))) = append base (Text.join "/" front) := by
  have hsplit : append base (Text.join "/" (front ++ [last])) =
      append base (Text.join "/" front) ++ "/" ++ last := by
    rw [append, append, Text.join_concat "/" hne]
    split <;> simp only [String.append_assoc]
  obtain ⟨init, name, rfl⟩ := List.eq_nil_or_concat' front |>.resolve_left hne
  have hname := hfront name (by simp)
  obtain ⟨lead, hlead⟩ := exists_append_eq base init name
  rw [hsplit, parent_eq hlast.2.2.2, hlead, dropEndWhile_slash hname, String.ofList_toList]
  rw [if_neg]
  simp [hname.1]

/-! ## Paths around a path -/

/-- The paths of components and of those before the last, from the inside out. -/
def outward (cs : List Component) : List String :=
  (List.range cs.length).map fun n => ofComponents (cs.take (cs.length - n))

theorem around_eq (path : String) : around path = outward (components path).dropLast := rfl

theorem mem_outward {cs : List Component} {around : String} (h : around ∈ outward cs) :
    ∃ front rest, front ≠ [] ∧ cs = front ++ rest ∧ around = ofComponents front := by
  obtain ⟨n, hn, rfl⟩ := List.mem_map.1 h
  rw [List.mem_range] at hn
  refine ⟨_, _, List.ne_nil_of_length_pos ?_, (List.take_append_drop (cs.length - n) cs).symm, rfl⟩
  rw [List.length_take]
  omega

theorem outward_concat (cs : List Component) (c : Component) :
    outward (cs ++ [c]) = ofComponents (cs ++ [c]) :: outward cs := by
  rw [outward, List.length_append, List.length_singleton, List.range_succ_eq_map, List.map_cons,
    List.map_map]
  congr 1
  · rw [Nat.sub_zero, List.take_of_length_le (by simp)]
  · refine List.map_congr_left fun n _ => ?_
    have htake : cs.length + 1 - (n + 1) ≤ cs.length := by omega
    simp only [Function.comp, Nat.succ_eq_add_one]
    rw [List.take_append_of_le_length htake, Nat.add_sub_add_right]

end TypedStubs.Path
