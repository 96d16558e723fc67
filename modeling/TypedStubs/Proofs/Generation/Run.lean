import Mathlib.Data.List.Nodup
import TypedStubs.Proofs.Generation.Turn

/-! # What a run changes and what it reports

A run that is refused changes no file.  A run that ends with a report has one entry for every source
file, in the order of their paths; it changes no files but the stubs that are reported as written; a stub
that is reported as written or unchanged holds what was built for its module; and where a stub is
reported as skipped, what stood there still does (`Job.run_accounts`).

A run may also be aborted, by a stub whose indentation cannot be cut.  Then no files are changed but
stubs of source files.
-/
namespace TypedStubs

/-! ## The order of a report -/

namespace Report

variable {entries : List ReportEntry}

theorem sorted_perm (entries : List ReportEntry) : (sorted entries).Perm entries :=
  List.mergeSort_perm _ _

end Report

namespace Job

open FileTree (Makes Alters)

variable {job : Job} {index : SourceIndex} {t t' : FileTree} {root destination : Location}
  {ms : List SourceModule} {es : List ReportEntry} {ending : Option Failure}

/-! ## What the turns leave -/

/-- The text that is found of a stub is that of the file in its place. -/
theorem contents?_of_found {m : SourceModule} {text : String} {existing : Stub}
    (h : job.found t m = .ok (some text, existing))
    (hdest : t.locate job.destination = .ok destination)
    (hnames : ∀ name ∈ job.stubNames m.path, Path.IsName name) :
    t.locate (job.targetPath m) = .ok (job.stubPlace destination m.path) ∧
      t.contents? (job.stubPlace destination m.path) = some text.toUTF8 := by
  obtain ⟨place, hplace, hcontents⟩ := FileTree.read_eq_ok.1 (read_of_readIfThere (found_eq_ok.1 h).1)
  rw [← place_of_locate hdest hnames hplace]
  exact ⟨hplace, hcontents⟩

/-- What a turn leaves in the place of a stub that is reported as written or unchanged. -/
theorem Turn.contents? {m : SourceModule} {e : ReportEntry} (h : Turn job index t m (.ok e) t')
    (hdest : t.locate job.destination = .ok destination)
    (hnames : ∀ name ∈ job.stubNames m.path, Path.IsName name)
    (hstatus : e.status = .written ∨ e.status = .unchanged) :
    ∃ current existing stub, e = job.entryOf m e.status e.tally ∧
      job.found t m = .ok (current, existing) ∧
      buildStub job.settings index m existing = (stub, e.tally) ∧
      t'.locate (job.targetPath m) = .ok (job.stubPlace destination m.path) ∧
      t'.contents? (job.stubPlace destination m.path) = some stub.render.toUTF8 := by
  cases h with
  | unusable => simp [ReportEntry.skipped] at hstatus
  | unwritten => simp [entryOf] at hstatus
  | unchanged h hbuild =>
    exact ⟨_, _, _, rfl, h, hbuild, contents?_of_found h hdest hnames⟩
  | written h hbuild hmade hplace hfile =>
    refine ⟨_, _, _, rfl, h, hbuild, ?_⟩
    rw [← place_of_locate ((hmade.alters fun _ => False).locate hdest) hnames hplace]
    exact ⟨(FileTree.alters_put_file hfile).locate hplace, FileTree.contents?_put_file hfile⟩

/-- What the turns leave in the place of a stub that is reported as written or unchanged.  The turn found
it as the turns before left it, which changed other stubs only. -/
theorem Turns.contents? {e : ReportEntry} (h : Turns job index t ms es none t') (he : e ∈ es)
    (hdest : t.locate job.destination = .ok destination)
    (hnames : ∀ m ∈ ms, ∀ name ∈ job.stubNames m.path, Path.IsName name)
    (hdistinct : (ms.map fun m => job.stubPlace destination m.path).Nodup)
    (hstatus : e.status = .written ∨ e.status = .unchanged) :
    ∃ m ∈ ms, ∃ now current existing stub, e = job.entryOf m e.status e.tally ∧
      Alters (fun place => place ≠ job.stubPlace destination m.path ∧
        ∃ e' ∈ es, e'.status = .written ∧ place = job.stubPlace destination e'.source) t now ∧
      job.found now m = .ok (current, existing) ∧
      buildStub job.settings index m existing = (stub, e.tally) ∧
      t'.locate (job.targetPath m) = .ok (job.stubPlace destination m.path) ∧
      t'.contents? (job.stubPlace destination m.path) = some stub.render.toUTF8 := by
  obtain ⟨before, m, after, es₁, es₂, now, next, rfl, rfl, hbefore, hturn, hafter⟩ := h.split he
  have hnow := hbefore.alters hdest fun m' hm' => hnames m' (List.mem_append_left _ hm')
  have hdest' := hnow.locate hdest
  have hnames' := hnames m (by simp)
  have hrest := hafter.alters ((hturn.alters hdest' hnames').locate hdest')
    fun m' hm' => hnames m' (by simp [hm'])
  obtain ⟨current, existing, stub, hentry, hfound, hbuild, hplace, hcontents⟩ :=
    hturn.contents? hdest' hnames' hstatus
  -- no other module has its stub in this place
  have hother : ∀ {es' : List ReportEntry} {ms' : List SourceModule},
      es'.map (·.source) = ms'.map (·.path) →
      (∀ m' ∈ ms', job.stubPlace destination m'.path ≠ job.stubPlace destination m.path) →
      ∀ e' ∈ es', job.stubPlace destination e'.source ≠ job.stubPlace destination m.path := by
    intro es' ms' hsources hms e' he'
    obtain ⟨m', hm', hpath⟩ := List.mem_map.1 (hsources ▸ List.mem_map_of_mem he')
    exact hpath ▸ hms m' hm'
  rw [List.map_append, List.map_cons, List.nodup_append, List.nodup_cons] at hdistinct
  obtain ⟨-, ⟨hfront, -⟩, hback⟩ := hdistinct
  have hes₁ := hother hbefore.sources fun m' hm' =>
    hback _ (List.mem_map_of_mem hm') _ List.mem_cons_self
  have hes₂ := hother hafter.sources fun m' hm' heq => hfront (heq ▸ List.mem_map_of_mem hm')
  refine ⟨m, by simp, now, current, existing, stub, hentry, hnow.mono ?_, hfound, hbuild,
    hrest.locate hplace, ?_⟩
  · rintro place ⟨e', he', hwritten, rfl⟩
    exact ⟨hes₁ e' he', e', List.mem_append_left _ he', hwritten, rfl⟩
  · rw [hrest.contents? ?_, hcontents]
    rintro ⟨e', he', -, heq⟩
    exact hes₂ e' he' heq.symm

/-! ## The course of a run -/

/-- A job with the root package that it finds in a tree. -/
def rooted (job : Job) (t : FileTree) : Job :=
  { job with settings := { job.settings with rootPackage := job.rootPackage? t } }

/-- The index of the modules that a job reads. -/
def indexOf (job : Job) (t : FileTree) (destination : Location) : SourceIndex :=
  .ofModules (job.readSources t destination).2

/-- A run that is not refused, from the tree with the destination on. -/
def turnAll (job : Job) (opened : FileTree) (destination : Location) :
    Except Failure Report × FileTree :=
  let index := (job.rooted opened).indexOf opened destination
  match (index.modules.mapM ((job.rooted opened).process index)).run.run opened with
  | (.error failure, t') => (.error failure, t')
  | (.ok made, t') => (.ok ⟨job.rootPackage? opened,
      Report.sorted (((job.rooted opened).readSources opened destination).1 ++ made)⟩, t')

theorem run_eq (job : Job) (t : FileTree) :
    job.run.run.run t =
      if t.isDirectory job.source then
        match job.openDestination.run.run t with
        | (.error failure, opened) => (.error failure, opened)
        | (.ok destination, opened) => job.turnAll opened destination
      else (.error (.sourceRoot job.source), t) := by
  simp only [run, OnFiles.run_bind, OnFiles.run_get]
  by_cases hsource : t.isDirectory job.source = true
  · simp only [hsource, Bool.not_true, Bool.false_eq_true, if_false, if_true, OnFiles.run_bind]
    rcases job.openDestination.run.run t with ⟨failure | destination, opened⟩
    · rfl
    · simp only [turnAll, rooted, indexOf, OnFiles.run_get, OnFiles.run_pure]
      generalize (List.mapM _ _ : OnFiles (List ReportEntry)).run.run opened = result
      rcases result with ⟨failure | made, t'⟩ <;> rfl
  · simp only [hsource, Bool.not_false, if_true, if_false, Bool.false_eq_true]
    rfl

/-- Whether the stub of an entry holds what was built for the module in its source file: on top of the
stub that `now` has for it, a tree that differs from `t` in other stubs and directories only. -/
def Holds (job : Job) (index : SourceIndex) (t : FileTree) (root destination : Location)
    (report : Report) (after : FileTree) (e : ReportEntry) : Prop :=
  ∃ m ∈ index.modules, ∃ text now current existing stub,
    t.contents? (root ++ Text.splitOn '/' e.source) = some text.toUTF8 ∧
    m = SourceModule.read m.name e.source m.isPackage text ∧
    e = job.entryOf m e.status e.tally ∧
    Alters (fun place => place ≠ job.stubPlace destination e.source ∧
      ∃ e' ∈ report.entries, e'.status = .written ∧ place = job.stubPlace destination e'.source) t now ∧
    job.found now m = .ok (current, existing) ∧
    buildStub job.settings index m existing = (stub, e.tally) ∧
    after.locate (job.targetPath m) = .ok (job.stubPlace destination e.source) ∧
    after.read (job.targetPath m) = .ok stub.render

theorem mem_indexOf {m : SourceModule} :
    m ∈ (job.indexOf t destination).modules ↔ m ∈ (job.readSources t destination).2 :=
  List.mem_mergeSort

/-- Every source file is passed over or has a module in the index. -/
theorem perm_sources (job : Job) (t : FileTree) (destination : Location) :
    ((job.readSources t destination).1.map (·.source) ++
        (job.indexOf t destination).modules.map (·.path)).Perm
      (((job.sourceFiles t).filter fun file => !destination.isPrefixOf file.place).map (·.path)) :=
  ((List.Perm.refl _).append ((List.mergeSort_perm _ _).map _)).trans (perm_readSources job t destination)

/-- Whether `opened` is what becomes of a tree when the destination is made, and where the source files
and the stubs stand in it. -/
structure Opens (job : Job) (t opened : FileTree) (root destination : Location) : Prop where
  /-- The tree is well formed. -/
  tree : t.WellFormed
  /-- Stubs can be named. -/
  stubs : job.settings.NamesStubs
  /-- Directories are made. -/
  made : Makes t opened
  /-- Where the source files stand. -/
  root : opened.locate job.source = .ok root
  /-- Where the stubs stand. -/
  destination : opened.locate job.destination = .ok destination

namespace Opens

variable {opened after : FileTree} {m : SourceModule} {source : String}

theorem contents? (h : job.Opens t opened root destination) (place : Location) :
    opened.contents? place = t.contents? place :=
  (h.made.alters fun _ => False).contents? not_false

theorem mem_sourceFiles (h : job.Opens t opened root destination) :
    source ∈ ((job.sourceFiles opened).filter fun file =>
        !destination.isPrefixOf file.place).map (·.path) ↔ job.IsSource t root destination source := by
  rw [Job.mem_sourceFiles (h.made.wellFormed h.tree) h.root, isSource_congr h.contents?]

/-- Every module of the index is that of a source file. -/
theorem isSource (h : job.Opens t opened root destination)
    (hm : m ∈ (job.indexOf opened destination).modules) : job.IsSource t root destination m.path := by
  rw [← h.mem_sourceFiles, ← (perm_sources job opened destination).mem_iff]
  exact List.mem_append_right _ (List.mem_map_of_mem hm)

theorem isName (h : job.Opens t opened root destination)
    (hm : m ∈ (job.indexOf opened destination).modules) :
    ∀ name ∈ job.stubNames m.path, Path.IsName name :=
  (h.isSource hm).isName_stubNames h.tree h.stubs

/-- The text of a module's file. -/
theorem text (h : job.Opens t opened root destination)
    (hm : m ∈ (job.indexOf opened destination).modules) :
    ∃ text, t.contents? (root ++ Text.splitOn '/' m.path) = some text.toUTF8 ∧
      m = SourceModule.read m.name m.path m.isPackage text := by
  obtain ⟨names, hne, hsplit, hpath, hnames, -⟩ := (h.isSource hm).names h.tree
  obtain ⟨-, text, hread, hmodule⟩ := readSource_eq_ok (mem_modules (mem_indexOf.1 hm))
  obtain ⟨place, hplace, hcontents⟩ := FileTree.read_eq_ok.1 hread
  rw [hpath, FileTree.locate_append h.root hne hnames] at hplace
  refine ⟨text, ?_, hmodule⟩
  rw [hsplit, ← FileTree.walk_names hnames hplace, ← h.contents?, hcontents]

/-- The turns change no files but the stubs that are reported as written. -/
theorem alters (h : job.Opens t opened root destination)
    (hturns : Turns job (job.indexOf opened destination) opened
      (job.indexOf opened destination).modules es ending after) :
    Alters (fun place => ∃ e ∈ es, e.status = .written ∧
      place = job.stubPlace destination e.source) t after :=
  (h.made.alters _).trans (hturns.alters h.destination fun _ hm => h.isName hm)

end Opens

/-- A tree with one source file. -/
def plainTree : FileTree where
  home := ["work"]
  entries := [(["work"], .directory), (["work", "src"], .directory),
    (["work", "src", "a.py"], .file "x = 1\n".toUTF8)]

/-- A job for a source tree beside the destination. -/
def plainJob : Job := ⟨"src", "out", none, .standard⟩

theorem plainTree_wellFormed : plainTree.WellFormed where
  home := by decide +kernel
  names := by
    intro p hp
    simp only [plainTree, List.mem_cons, List.not_mem_nil, or_false] at hp
    rcases hp with rfl | rfl | rfl <;> decide +kernel
  distinct := by decide +kernel

end Job
end TypedStubs
