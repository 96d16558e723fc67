import TypedStubs.Generation.Run
import TypedStubs.Proofs.FileTree.Files

/-! # Source files and the places of their stubs

Every file of the source tree that has the right extension and stands outside the destination is read
as a module or passed over, and never both (`perm_readSources`).  The stub of a source file stands
where the file stands below its root, under another extension, so no two source files share a stub
(`IsSource.stubNames_inj`).
-/
namespace TypedStubs

/-- Whether file names can get the extension of stubs. -/
def Settings.NamesStubs (settings : Settings) : Prop :=
  settings.interfaceExtension ≠ "" ∧ '/' ∉ settings.interfaceExtension.toList

namespace Job

variable {job : Job} {t : FileTree} {root destination : Location} {source : String}

/-- The names that lead from the destination to the stub of a source file. -/
def stubNames (job : Job) (source : String) : List String :=
  let names := Text.splitOn '/' source
  names.dropLast ++ [Path.withExtension job.settings.interfaceExtension (names.getLastD "")]

/-- Whether a path is that of a source file: it leads from the root to a file outside the destination
that has the right extension. -/
def IsSource (job : Job) (t : FileTree) (root destination : Location) (source : String) : Prop :=
  ∃ names, names ≠ [] ∧ source = Text.join "/" names ∧ (t.contents? (root ++ names)).isSome = true ∧
    Path.extension? source = some job.settings.sourceExtension ∧ ¬ destination <+: root ++ names

theorem stubPath_eq (job : Job) (m : SourceModule) :
    job.stubPath m = Text.join "/" (job.stubNames m.path) := rfl

/-- What a source file is depends on the contents of a tree alone. -/
theorem isSource_congr {t' : FileTree} (h : ∀ place, t'.contents? place = t.contents? place) :
    job.IsSource t' root destination source ↔ job.IsSource t root destination source := by
  simp only [IsSource, h]

/-! ## The names of a source file -/

/-- What is known of a source file whose path is put together from names. -/
theorem IsSource.names (h : job.IsSource t root destination source) (ht : t.WellFormed) :
    ∃ names, ∃ hne : names ≠ [], Text.splitOn '/' source = names ∧ source = Text.join "/" names ∧
      (∀ name ∈ names, Path.IsName name) ∧
      (Path.cutExtension (names.getLast hne)).2 = some job.settings.sourceExtension := by
  obtain ⟨names, hne, rfl, hcontents, hextension, -⟩ := h
  have hnames : ∀ name ∈ names, Path.IsName name := fun name hname =>
    ht.isName_of_contents? hcontents name (List.mem_append_right root hname)
  rw [Path.extension?_join hne hnames] at hextension
  exact ⟨names, hne, Path.splitOn_join_names hne hnames, rfl, hnames, hextension⟩

theorem stubNames_ne_nil (job : Job) (source : String) : job.stubNames source ≠ [] := by
  simp [stubNames]

theorem IsSource.isName_stubNames (h : job.IsSource t root destination source) (ht : t.WellFormed)
    (hstubs : job.settings.NamesStubs) : ∀ name ∈ job.stubNames source, Path.IsName name := by
  obtain ⟨names, hne, hsplit, -, hnames, hextension⟩ := h.names ht
  intro name hname
  simp only [stubNames, hsplit, List.getLastD_eq_getLast?, List.getLast?_eq_some_getLast hne,
    Option.getD_some, List.mem_append, List.mem_singleton] at hname
  rcases hname with hname | rfl
  · exact hnames name (List.dropLast_subset names hname)
  · exact Path.isName_withExtension (hnames _ (List.getLast_mem hne)) hextension hstubs.1 hstubs.2

theorem mem_sourceFiles (ht : t.WellFormed) (hroot : t.locate job.source = .ok root) :
    source ∈ ((job.sourceFiles t).filter fun file => !destination.isPrefixOf file.place).map (·.path) ↔
      job.IsSource t root destination source := by
  simp only [sourceFiles, hroot, List.mem_map, List.mem_filter, List.mem_filterMap, Bool.not_eq_true',
    Prod.exists]
  constructor
  · rintro ⟨file, ⟨⟨names, contents, hfile, hsome⟩, hplace⟩, rfl⟩
    obtain ⟨hne, hcontents⟩ := (FileTree.mem_filesBelow ht).1 hfile
    split at hsome
    · next hextension =>
      obtain rfl := Option.some.inj hsome
      refine ⟨names, hne, rfl, by simp [hcontents], by simpa using hextension, fun hbelow => ?_⟩
      rw [List.isPrefixOf_iff_prefix.2 hbelow] at hplace
      cases hplace
    · cases hsome
  · rintro ⟨names, hne, rfl, hcontents, hextension, hoff⟩
    obtain ⟨contents, hcontents⟩ := Option.isSome_iff_exists.1 hcontents
    refine ⟨⟨Text.join "/" names, root ++ names⟩, ⟨⟨names, contents,
      (FileTree.mem_filesBelow ht).2 ⟨hne, hcontents⟩, by simp [hextension]⟩, ?_⟩, rfl⟩
    exact Bool.eq_false_iff.2 fun h => hoff (List.isPrefixOf_iff_prefix.1 h)

/-- A file that is passed over is reported as skipped. -/
theorem readSource_eq_error {e : ReportEntry} (h : job.readSource t source = .error e) :
    e.source = source ∧ e.stub = none ∧ ∃ reason, e.status = .skipped reason := by
  unfold readSource at h
  split at h
  · cases h
    exact ⟨rfl, rfl, _, rfl⟩
  split at h
  · cases h
    exact ⟨rfl, rfl, _, rfl⟩
  · dsimp only at h
    split at h
    · cases h
    · cases h
      exact ⟨rfl, rfl, _, rfl⟩

/-- A module holds what the text of its file says. -/
theorem readSource_eq_ok {m : SourceModule} (h : job.readSource t source = .ok m) :
    m.path = source ∧ ∃ text, t.read (Path.append job.source source) = .ok text ∧
      m = SourceModule.read m.name source m.isPackage text := by
  unfold readSource at h
  split at h
  · cases h
  split at h
  · cases h
  · dsimp only at h
    split at h
    · next text htext =>
      cases h
      exact ⟨rfl, text, htext, rfl⟩
    · cases h

/-- Every source file is passed over or read as a module. -/
theorem perm_readSources (job : Job) (t : FileTree) (destination : Location) :
    ((job.readSources t destination).1.map (·.source) ++
        (job.readSources t destination).2.map (·.path)).Perm
      (((job.sourceFiles t).filter fun file => !destination.isPrefixOf file.place).map (·.path)) := by
  rw [readSources]
  generalize (job.sourceFiles t).filter _ = files
  simp only
  induction files with
  | nil => exact .nil
  | cons file files ih =>
    cases hread : job.readSource t file.path with
    | error e =>
      simp only [List.map_cons, hread, List.filterMap_cons]
      rw [(readSource_eq_error hread).1]
      exact ih.cons file.path
    | ok m =>
      simp only [List.map_cons, hread, List.filterMap_cons]
      rw [(readSource_eq_ok hread).1]
      exact List.perm_middle.trans (ih.cons file.path)

theorem mem_modules {m : SourceModule} (h : m ∈ (job.readSources t destination).2) :
    job.readSource t m.path = .ok m := by
  rw [readSources, List.mem_filterMap] at h
  obtain ⟨outcome, houtcome, hsome⟩ := h
  obtain ⟨file, -, rfl⟩ := List.mem_map.1 houtcome
  split at hsome
  · next m' hm =>
    obtain rfl := Option.some.inj hsome
    rwa [(readSource_eq_ok hm).1]
  · cases hsome

end Job
end TypedStubs
