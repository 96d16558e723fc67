import Mathlib.Data.List.Infix
import TypedStubs.Proofs.Path
import TypedStubs.Settings.Basic

/-! # Paths that settings exclude

A path is excluded by its pieces.  A fragment with a slash at its end names one directory, and excludes what lies
anywhere below a directory of that name; any other fragment excludes what its own pieces lead to at the end of the
path (`fragmentExcludes_directory`, `fragmentExcludes_ending`).  A fragment that names several directories, one in
the other, excludes nothing (`excludesPath_by_pieces`, `nested_directories_pass`).
-/
namespace TypedStubs.Settings

variable {path fragment directory : String} {names : List String}

/-- A path with slashes for its backslashes. -/
def slashed (path : String) : String :=
  String.ofList (path.toList.map fun c => if c = '\\' then '/' else c)

/-- The pieces of a path between its slashes and backslashes. -/
def pieces (path : String) : List String := Text.splitOn '/' (slashed path)

/-- Whether names are those of directories, one in the other. -/
structure IsNested (names : List String) : Prop where
  /-- There is a directory. -/
  ne_nil : names ≠ []
  /-- Each has a name, which is one piece. -/
  piece : ∀ name ∈ names, name ≠ "" ∧ '/' ∉ name.toList

/-- The fragment for directories, one in the other. -/
def directoryFragment (names : List String) : String := Text.join "/" names ++ "/"

theorem excludesPath_iff {s : Settings} :
    s.excludesPath path = true ↔ ∃ fragment ∈ s.excludedPaths, fragmentExcludes (slashed path) fragment = true :=
  List.any_eq_true

theorem slashed_eq_self (h : '\\' ∉ path.toList) : slashed path = path := by
  have hmap : path.toList.map (fun c => if c = '\\' then '/' else c) = path.toList := by
    refine (List.map_congr_left fun c hc => ?_).trans (List.map_id _)
    exact if_neg fun heq : c = '\\' => h (heq ▸ hc)
  rw [slashed, hmap, String.ofList_toList]

/-- A path that is put together from names has these as its pieces. -/
theorem pieces_join (hne : names ≠ []) (hnames : ∀ name ∈ names, Path.IsName name ∧ '\\' ∉ name.toList) :
    pieces (Text.join "/" names) = names := by
  have hback : '\\' ∉ (Text.join "/" names).toList := by
    intro hmem
    obtain hsep | ⟨name, hname, hc⟩ := Text.mem_join hmem
    · simp at hsep
    · exact (hnames name hname).2 hc
  rw [pieces, slashed_eq_self hback, Path.splitOn_join_names hne fun name hname => (hnames name hname).1]

/-! ### What a fragment excludes -/

theorem fragmentExcludes_directory :
    fragmentExcludes path (directory ++ "/") = true ↔ directory ∈ (Text.splitOn '/' path).dropLast := by
  rw [fragmentExcludes, Text.before?_eq_some_iff.2 rfl]
  exact List.contains_iff_mem

theorem fragmentExcludes_ending (h : fragment.endsWith "/" = false) :
    fragmentExcludes path fragment = true ↔ Text.splitOn '/' fragment <:+ Text.splitOn '/' path := by
  have hnone : Text.before? "/" fragment = none := by
    refine Option.eq_none_iff_forall_ne_some.2 fun front hfront => ?_
    obtain rfl := Text.before?_eq_some_iff.1 hfront
    exact absurd (Path.endsWith_slash front) (by simp [h])
  have hslash : ∀ front : String, front ++ ("/" ++ fragment) = front ++ String.singleton '/' ++ fragment :=
    fun front => String.append_assoc.symm
  rw [fragmentExcludes, hnone, Text.splitOn_suffix_iff]
  simp [Text.before?_isSome_iff, hslash]

/-- Several directories, one in the other, are no piece of a path. -/
theorem join_mem_dropLast (hnames : IsNested names) :
    Text.join "/" names ∈ (Text.splitOn '/' path).dropLast ↔
      names.length = 1 ∧ names <:+: (Text.splitOn '/' path).dropLast := by
  constructor
  · intro hmem
    have hslash := Text.not_mem_of_mem_splitOn (List.mem_of_mem_dropLast hmem)
    match names, hnames.ne_nil with
    | [name], _ => exact ⟨rfl, (List.singleton_infix_iff _ _).2 (by simpa [Text.join] using hmem)⟩
    | first :: second :: rest, _ =>
      rw [Text.join_cons_cons] at hslash
      simp at hslash
  · rintro ⟨hone, hmem⟩
    obtain ⟨name, rfl⟩ := List.length_eq_one_iff.1 hone
    simpa [Text.join] using (List.singleton_infix_iff _ _).1 hmem

/-- **Excluded directories are excluded at any depth, each by its own name.**  The only fragment of a setting,
when it names directories, excludes a path just if it names one directory and that is among the directories of the
path; such a fragment excludes whatever other fragments there are.  And what excludes a path is a fragment whose
pieces before its last slash are among the directories, or one without that slash whose pieces are the last ones of
the path. -/
theorem excludesPath_by_pieces (s : Settings) (path : String) :
    (∀ names, IsNested names →
      (({ s with excludedPaths := [directoryFragment names] } : Settings).excludesPath path = true ↔
        names.length = 1 ∧ names <:+: (pieces path).dropLast)) ∧
      (∀ name, directoryFragment [name] ∈ s.excludedPaths → [name] <:+: (pieces path).dropLast →
        s.excludesPath path = true) ∧
      (s.excludesPath path = true → ∃ fragment ∈ s.excludedPaths,
        (∃ directory, fragment = directory ++ "/" ∧
          Text.splitOn '/' directory <:+: (pieces path).dropLast) ∨
        fragment.endsWith "/" = false ∧ Text.splitOn '/' fragment <:+ pieces path) := by
  refine ⟨fun names hnames => ?_, fun name hname hmem => ?_, fun h => ?_⟩
  · rw [excludesPath_iff]
    simp only [List.mem_singleton, exists_eq_left]
    rw [directoryFragment, fragmentExcludes_directory]
    exact join_mem_dropLast hnames
  · refine excludesPath_iff.2 ⟨_, hname, fragmentExcludes_directory.2 ?_⟩
    simpa [Text.join, pieces] using (List.singleton_infix_iff _ _).1 hmem
  · obtain ⟨fragment, hmem, hexcludes⟩ := excludesPath_iff.1 h
    refine ⟨fragment, hmem, ?_⟩
    by_cases hend : fragment.endsWith "/" = true
    · obtain ⟨directory, rfl⟩ := Path.exists_of_endsWith hend
      have hdirectory := fragmentExcludes_directory.1 hexcludes
      have hslash := Text.not_mem_of_mem_splitOn (List.mem_of_mem_dropLast hdirectory)
      refine .inl ⟨directory, rfl, ?_⟩
      rw [Text.splitOn_of_not_mem hslash]
      exact (List.singleton_infix_iff _ _).2 hdirectory
    · have hend := Bool.eq_false_iff.2 hend
      exact .inr ⟨hend, (fragmentExcludes_ending hend).1 hexcludes⟩

/-- A directory on the way to a file. -/
theorem excludesPath_by_pieces_tests : ["tests"] <:+: (pieces "pkg/tests/unit/a.py").dropLast ∧
    standard.excludesPath "pkg/tests/unit/a.py" = true := by
  have hpieces : pieces (Text.join "/" ["pkg", "tests", "unit", "a.py"]) = ["pkg", "tests", "unit", "a.py"] :=
    pieces_join (by decide) (by decide)
  have hmem : ["tests"] <:+: (pieces "pkg/tests/unit/a.py").dropLast := by
    refine hpieces.symm ▸ ?_
    decide
  exact ⟨hmem, (excludesPath_by_pieces standard _).2.1 "tests" (by decide) hmem⟩

/-- **A fragment that names a directory in another one excludes nothing.**  So not every path through excluded
directories is excluded. -/
theorem nested_directories_pass : ¬ ∀ (s : Settings) (names : List String) (path : String), IsNested names →
    directoryFragment names ∈ s.excludedPaths → names <:+: (pieces path).dropLast →
      s.excludesPath path = true := by
  intro h
  have hpieces : pieces (Text.join "/" ["lib", "sub", "x.py"]) = ["lib", "sub", "x.py"] :=
    pieces_join (by decide) (by decide)
  have hmem : ["lib", "sub"] <:+: (pieces "lib/sub/x.py").dropLast := by
    refine hpieces.symm ▸ ?_
    decide
  have hexcludes := h { standard with excludedPaths := ["lib/sub/"] } ["lib", "sub"] "lib/sub/x.py"
    ⟨by decide, by decide⟩ (by decide) hmem
  exact absurd hexcludes (by decide)

end TypedStubs.Settings
