import TypedStubs.Generation.Run
import TypedStubs.Proofs.Path.Components

/-! # Source files, their modules and their stubs

The name of a module is put together from words: those of the root package, the directories on the way to its
source file, and the stem of the file unless that initialises a package.  A word holds no dot, so the words come
out of the name again (`ModuleName.exists_parts`), and the name leads back to the file
(`ModuleName.sourcePath_eq`).  Whatever extension stubs have, the stub of a file has the directories and the
stem of the file in front of it (`Path.components_extended`).  So different files have different modules and
different stubs (`ModuleName.source_files_apart`).
-/
namespace TypedStubs

variable {rootPackage : Option String} {extension path stem file : String} {directories : List String}
  {m : ModuleName}

theorem Text.not_mem_of_isWord {c : Char} (hc : continuesWord c = false) {word : String}
    (h : isWord word = true) : c ∉ word.toList := by
  unfold isWord at h
  cases hword : word.toList with
  | nil => simp
  | cons d ds =>
    rw [hword, isWordChars, Bool.and_eq_true, List.all_eq_true] at h
    intro hmem
    rw [h.2 c hmem] at hc
    cases hc

theorem Text.ne_empty_of_isWord {word : String} (h : isWord word = true) : word ≠ "" := by
  rintro rfl
  cases h

namespace Path

/-! ### Files -/

/-- Whether a path leads to a file with some extension: relative, and put together from the names of directories
and of the file. -/
def IsFileOf (extension path : String) : Prop :=
  ∃ names, names ≠ [] ∧ path = Text.join "/" names ∧ (∀ name ∈ names, IsName name) ∧
    extension? path = some extension

/-- The directories and the stem that the path of a file is put together from. -/
theorem IsFileOf.parts (h : IsFileOf extension path) :
    ∃ directories stem, path = Text.join "/" (directories ++ [stem ++ "." ++ extension]) ∧
      (∀ name ∈ directories ++ [stem ++ "." ++ extension], IsName name) ∧
      cutExtension (stem ++ "." ++ extension) = (stem, some extension) := by
  obtain ⟨names, hne, rfl, hnames, hextension⟩ := h
  obtain ⟨directories, file, rfl⟩ := List.eq_nil_or_concat' names |>.resolve_left hne
  rw [extension?_join hne hnames, List.getLast_append_singleton] at hextension
  have hcut : cutExtension file = ((cutExtension file).1, some extension) := Prod.ext rfl hextension
  have hfile := (cutExtension_eq_some hcut).2
  rw [hfile] at hcut hnames
  exact ⟨directories, _, by rw [← hfile], hnames, hcut.trans (by rw [← hfile])⟩

theorem directories?_join (hnames : ∀ name ∈ directories ++ [file], IsName name) :
    directories? (Text.join "/" (directories ++ [file])) = some directories := by
  rw [directories?, components_join (by simp) hnames, List.map_append, List.map_singleton,
    List.dropLast_concat]
  clear hnames
  induction directories with
  | nil => rfl
  | cons name names ih => rw [List.map_cons, List.foldr_cons, ih]; rfl

/-! ### What stands behind a stem -/

/-- A word with more text behind it is a name. -/
theorem isName_append (hstem : Text.isWord stem = true) {more : String} (hmore : '/' ∉ more.toList) :
    IsName (stem ++ more) := by
  obtain ⟨c, cs, hcs⟩ := List.exists_cons_of_ne_nil
    (show stem.toList ≠ [] by simpa using Text.ne_empty_of_isWord hstem)
  have hc : c ≠ '.' := by
    rintro rfl
    exact Text.not_mem_of_isWord (by decide +kernel) hstem (hcs ▸ List.mem_cons_self)
  have hne : ∀ text : String, text.toList.head? ≠ some c → stem ++ more ≠ text := by
    rintro text hhead rfl
    exact hhead (by simp [hcs])
  refine ⟨hne "" (by simp), hne "." (by simpa using hc.symm), hne ".." (by simpa using hc.symm), ?_⟩
  rw [String.toList_append, List.mem_append, not_or]
  exact ⟨Text.not_mem_of_isWord (by decide +kernel) hstem, hmore⟩

/-- The pieces of a path with more text behind the stem of its file, which may hold slashes. -/
theorem splitOn_extended (hdirectories : ∀ name ∈ directories, IsName name)
    (hstem : Text.isWord stem = true) {more piece : String} {rest : List String}
    (hmore : Text.splitOn '/' more = piece :: rest) :
    Text.splitOn '/' (Text.join "/" (directories ++ [stem]) ++ more) =
      directories ++ [stem ++ piece] ++ rest := by
  have hslash : ∀ p ∈ piece :: rest, '/' ∉ p.toList := hmore ▸ fun p => Text.not_mem_of_mem_splitOn
  obtain ⟨hpiece, hrest⟩ := List.forall_mem_cons.1 hslash
  have hjoin : Text.join "/" (directories ++ [stem]) ++ more =
      Text.join "/" (directories ++ (stem ++ piece) :: rest) := by
    have hmore' : Text.join "/" (piece :: rest) = more := hmore ▸ Text.join_splitOn '/' more
    by_cases hnil : directories = []
    · rw [hnil, List.nil_append, List.nil_append, Text.join_append_cons, hmore']
      simp [Text.join]
    · rw [Text.join_concat "/" hnil, Text.join_append "/" hnil (List.cons_ne_nil _ _),
        Text.join_append_cons, hmore']
      simp only [String.append_assoc]
  have hpieces : ∀ p ∈ directories ++ (stem ++ piece) :: rest, '/' ∉ p.toList := by
    refine List.forall_mem_append.2 ⟨fun name hname => (hdirectories name hname).2.2.2, ?_⟩
    exact List.forall_mem_cons.2 ⟨(isName_append hstem hpiece).2.2.2, hrest⟩
  rw [hjoin, List.append_assoc, List.singleton_append]
  exact Text.splitOn_join (by simp) hpieces

theorem components_extended (hdirectories : ∀ name ∈ directories, IsName name)
    (hstem : Text.isWord stem = true) {more piece : String} {rest : List String}
    (hmore : Text.splitOn '/' more = piece :: rest) :
    components (Text.join "/" (directories ++ [stem]) ++ more) =
      directories.map .entry ++ .entry (stem ++ piece) :: rest.filterMap step? := by
  have hpiece : '/' ∉ piece.toList := Text.not_mem_of_mem_splitOn (hmore ▸ List.mem_cons_self)
  have hnames : ∀ name ∈ directories ++ [stem ++ piece], IsName name :=
    List.forall_mem_append.2 ⟨hdirectories, List.forall_mem_singleton.2 (isName_append hstem hpiece)⟩
  have hpieces := splitOn_extended hdirectories hstem hmore
  obtain ⟨first, others, hfirst⟩ := List.exists_cons_of_ne_nil
    (show directories ++ [stem ++ piece] ≠ [] by simp)
  have hname : IsName first := hnames first (hfirst ▸ List.mem_cons_self)
  rw [hfirst, List.cons_append] at hpieces
  rw [components_plain hname.1 hname.2.1 hpieces, ← List.cons_append, ← hfirst, List.filterMap_append,
    filterMap_step?_names hnames]
  simp

end Path

namespace ModuleName

/-! ### Names -/

/-- The words that the name of the root package is put together from. -/
def rootParts : Option String → List String
  | some name => Text.splitOn '.' name
  | none => []

/-- What the name of a module is put together from. -/
def parts (rootPackage : Option String) (directories : List String) (stem : String) : List String :=
  rootParts rootPackage ++ directories ++ if stem == "__init__" then [] else [stem]

theorem ofPath?_eq (rootPackage : Option String) (path : String) :
    ofPath? rootPackage path =
      (Path.fileName? path).bind fun file => (Path.directories? path).bind fun directories =>
        let stem := (Path.cutExtension file).1
        let parts := parts rootPackage directories stem
        if !parts.isEmpty && parts.all Text.isWord then some ⟨Text.join "." parts, stem == "__init__"⟩
        else none := by
  cases rootPackage <;> rfl

/-- A file holds a module if its name is put together from words. -/
theorem ofPath?_join_eq_some (hnames : ∀ name ∈ directories ++ [file], Path.IsName name)
    (hcut : Path.cutExtension file = (stem, some extension)) :
    ofPath? rootPackage (Text.join "/" (directories ++ [file])) = some m ↔
      parts rootPackage directories stem ≠ [] ∧
      (∀ part ∈ parts rootPackage directories stem, Text.isWord part = true) ∧
      m = ⟨Text.join "." (parts rootPackage directories stem), stem == "__init__"⟩ := by
  have hfile : Path.fileName? (Text.join "/" (directories ++ [file])) = some file := by
    rw [Path.fileName?_join (by simp) hnames, List.getLast_append_singleton]
  rw [ofPath?_eq, hfile, Path.directories?_join hnames]
  simp only [Option.bind_some, hcut]
  rw [Option.ite_none_right_eq_some, Bool.and_eq_true, Bool.not_eq_true', List.isEmpty_eq_false_iff,
    List.all_eq_true, and_assoc, Option.some.injEq, eq_comm (a := m)]

theorem isWord_stem (h : ∀ part ∈ parts rootPackage directories stem, Text.isWord part = true) :
    Text.isWord stem = true := by
  by_cases hinit : stem = "__init__"
  · subst hinit
    decide +kernel
  · exact h stem (by simp [parts, hinit])

/-- What is known of a file that holds a module. -/
theorem exists_parts (hpath : Path.IsFileOf extension path) (hm : ofPath? rootPackage path = some m) :
    ∃ directories stem, path = Text.join "/" (directories ++ [stem ++ "." ++ extension]) ∧
      (∀ name ∈ directories ++ [stem ++ "." ++ extension], Path.IsName name) ∧
      Path.cutExtension (stem ++ "." ++ extension) = (stem, some extension) ∧
      Text.splitOn '.' m.name = parts rootPackage directories stem ∧
      (∀ part ∈ parts rootPackage directories stem, Text.isWord part = true) ∧
      m.isPackage = (stem == "__init__") := by
  obtain ⟨directories, stem, rfl, hnames, hcut⟩ := hpath.parts
  obtain ⟨hne, hwords, rfl⟩ := (ofPath?_join_eq_some hnames hcut).1 hm
  have hsplit := Text.splitOn_join hne fun part hpart =>
    Text.not_mem_of_isWord (c := '.') (by decide +kernel) (hwords part hpart)
  exact ⟨directories, stem, rfl, hnames, hcut, hsplit, hwords, rfl⟩

/-- The path of the file with some extension that a module is named after. -/
def sourcePath (rootPackage : Option String) (extension : String) (m : ModuleName) : String :=
  let below := (Text.splitOn '.' m.name).drop (rootParts rootPackage).length
  let names := if m.isPackage then below ++ ["__init__"] else below
  Text.join "/" (names.dropLast ++ [names.getLastD "" ++ "." ++ extension])

/-- The name of a module leads back to its file. -/
theorem sourcePath_eq (hpath : Path.IsFileOf extension path) (hm : ofPath? rootPackage path = some m) :
    sourcePath rootPackage extension m = path := by
  obtain ⟨directories, stem, rfl, -, -, hsplit, -, hpackage⟩ := exists_parts hpath hm
  have hbelow : (Text.splitOn '.' m.name).drop (rootParts rootPackage).length =
      directories ++ if stem == "__init__" then [] else [stem] := by
    rw [hsplit, parts, List.append_assoc, List.drop_left]
  have hnames : (if m.isPackage then (directories ++ if stem == "__init__" then [] else [stem]) ++ ["__init__"]
      else directories ++ if stem == "__init__" then [] else [stem]) = directories ++ [stem] := by
    rw [hpackage]
    by_cases hinit : stem = "__init__" <;> simp [hinit]
  rw [sourcePath, hbelow]
  simp only [hnames, List.dropLast_concat, List.getLastD_concat]

/-! ### Stubs -/

/-- What stands behind the stem of a file in the path of its stub. -/
def stubEnding (job : Job) : String :=
  if job.settings.interfaceExtension.isEmpty then "" else "." ++ job.settings.interfaceExtension

theorem stubPath_join (job : Job) (hnames : ∀ name ∈ directories ++ [file], Path.IsName name)
    (hcut : Path.cutExtension file = (stem, some extension)) {source : SourceModule}
    (hsource : source.path = Text.join "/" (directories ++ [file])) :
    job.stubPath source = Text.join "/" (directories ++ [stem]) ++ stubEnding job := by
  have hfile : Path.withExtension job.settings.interfaceExtension file = stem ++ stubEnding job := by
    rw [Path.withExtension, hcut, stubEnding]
    split <;> simp [String.append_assoc]
  rw [Job.stubPath, hsource, Path.splitOn_join_names (by simp) hnames]
  simp only [List.dropLast_concat, List.getLastD_concat, hfile]
  by_cases hnil : directories = []
  · simp [hnil, Text.join]
  · simp only [Text.join_concat "/" hnil, String.append_assoc]

/-- Files that lead to one stub have their directories and their stem in common. -/
theorem stubPath_inj (job : Job) {directories' : List String} {stem' file' extension' : String}
    {source source' : SourceModule} (hnames : ∀ name ∈ directories ++ [file], Path.IsName name)
    (hnames' : ∀ name ∈ directories' ++ [file'], Path.IsName name)
    (hcut : Path.cutExtension file = (stem, some extension))
    (hcut' : Path.cutExtension file' = (stem', some extension'))
    (hstem : Text.isWord stem = true) (hstem' : Text.isWord stem' = true)
    (hsource : source.path = Text.join "/" (directories ++ [file]))
    (hsource' : source'.path = Text.join "/" (directories' ++ [file']))
    (h : Path.components (job.stubPath source) = Path.components (job.stubPath source')) :
    directories = directories' ∧ stem = stem' := by
  obtain ⟨piece, rest, hending⟩ :=
    List.exists_cons_of_ne_nil (Text.splitOn_ne_nil '/' (stubEnding job))
  have hfront := (List.forall_mem_append.1 hnames).1
  have hfront' := (List.forall_mem_append.1 hnames').1
  rw [stubPath_join job hnames hcut hsource, stubPath_join job hnames' hcut' hsource',
    Path.components_extended hfront hstem hending, Path.components_extended hfront' hstem' hending] at h
  have hlength : (directories.map Path.Component.entry).length =
      (directories'.map Path.Component.entry).length := by
    have := congrArg List.length h
    simp only [List.length_append, List.length_cons] at this
    omega
  obtain ⟨hdirectories, hrest⟩ := List.append_inj h hlength
  refine ⟨List.map_injective_iff.2 (fun a b hab => Path.Component.entry.inj hab) hdirectories, ?_⟩
  have hpiece := Path.Component.entry.inj (List.cons.inj hrest).1
  rw [← String.toList_inj] at hpiece ⊢
  simpa using hpiece

/-- **No two source files share a module or a stub.**  The name of a module is the root package, the directories
on the way to its file, and the stem of the file unless that initialises a package; all of these are words, and
they lead back to the file.  So files that differ hold modules that differ, and their stubs lead to different
places, whatever extension stubs have. -/
theorem source_files_apart (rootPackage : Option String) (extension : String) :
    (∀ path m, Path.IsFileOf extension path → ofPath? rootPackage path = some m →
      (∃ directories stem, path = Text.join "/" (directories ++ [stem ++ "." ++ extension]) ∧
        Text.splitOn '.' m.name =
          rootParts rootPackage ++ directories ++ (if m.isPackage then [] else [stem]) ∧
        (m.isPackage = true ↔ stem = "__init__")) ∧
      (∀ part ∈ Text.splitOn '.' m.name, Text.isWord part = true) ∧
      sourcePath rootPackage extension m = path) ∧
    ∀ path path' m m', Path.IsFileOf extension path → Path.IsFileOf extension path' → path ≠ path' →
      ofPath? rootPackage path = some m → ofPath? rootPackage path' = some m' →
      m ≠ m' ∧ ∀ (job : Job) (source source' : SourceModule), source.path = path → source'.path = path' →
        Path.components (job.stubPath source) ≠ Path.components (job.stubPath source') := by
  refine ⟨fun path m hpath hm => ?_, fun path path' m m' hpath hpath' hne hm hm' => ⟨?_, ?_⟩⟩
  · obtain ⟨directories, stem, hjoin, -, -, hsplit, hwords, hpackage⟩ := exists_parts hpath hm
    refine ⟨⟨directories, stem, hjoin, ?_, by simp [hpackage]⟩, hsplit ▸ hwords, sourcePath_eq hpath hm⟩
    rw [hsplit, hpackage, parts]
  · rintro rfl
    exact hne ((sourcePath_eq hpath hm).symm.trans (sourcePath_eq hpath' hm'))
  · intro job source source' hsource hsource' hstub
    obtain ⟨directories, stem, hjoin, hnames, hcut, -, hwords, -⟩ := exists_parts hpath hm
    obtain ⟨directories', stem', hjoin', hnames', hcut', -, hwords', -⟩ := exists_parts hpath' hm'
    obtain ⟨rfl, rfl⟩ := stubPath_inj job hnames hnames' hcut hcut' (isWord_stem hwords)
      (isWord_stem hwords') (hsource.trans hjoin) (hsource'.trans hjoin') hstub
    exact hne (hjoin.trans hjoin'.symm)

/-- A module and a package of one name. -/
theorem source_files_apart_package :
    ofPath? (some "pkg") "a/b.py" = some ⟨"pkg.a.b", false⟩ ∧
      ofPath? (some "pkg") "a/b/__init__.py" = some ⟨"pkg.a.b", true⟩ ∧
      sourcePath (some "pkg") "py" ⟨"pkg.a.b", true⟩ = "a/b/__init__.py" ∧
      ∀ (job : Job) (source source' : SourceModule), source.path = "a/b.py" →
        source'.path = "a/b/__init__.py" →
        Path.components (job.stubPath source) ≠ Path.components (job.stubPath source') := by
  have hmodule : ofPath? (some "pkg") "a/b.py" = some ⟨"pkg.a.b", false⟩ := by decide +kernel
  have hpackage : ofPath? (some "pkg") "a/b/__init__.py" = some ⟨"pkg.a.b", true⟩ := by decide +kernel
  have hfile : Path.IsFileOf "py" "a/b.py" :=
    ⟨["a", "b.py"], by decide, by decide +kernel, by decide +kernel, by decide +kernel⟩
  have hinit : Path.IsFileOf "py" "a/b/__init__.py" :=
    ⟨["a", "b", "__init__.py"], by decide, by decide +kernel, by decide +kernel, by decide +kernel⟩
  obtain ⟨hdetermined, hapart⟩ := source_files_apart (some "pkg") "py"
  exact ⟨hmodule, hpackage, (hdetermined _ _ hinit hpackage).2.2,
    (hapart _ _ _ _ hfile hinit (by decide) hmodule hpackage).2⟩

end ModuleName

end TypedStubs
