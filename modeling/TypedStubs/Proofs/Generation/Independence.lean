import TypedStubs.Proofs.Generation.Alike
import TypedStubs.Proofs.Generation.Run

/-! # Stubs do not depend on each other

Two runs are compared over trees that have the same sources, the same seed, and the same in the place of
one stub and around it (`SameFor`); which other stubs the destination holds may differ.  If both are
reported, they leave the same in the place of the stub and report the same of its source file
(`run_independent`).

A run that is aborted is left out: a stub whose indentation cannot be cut ends the run for all modules.
-/
namespace TypedStubs.Job

open FileTree (Makes Alters Agree Closed)

variable {job : Job} {t t' opened opened' after after' : FileTree} {root destination : Location}
  {source : String} {places : Location → Prop} {es es' : List ReportEntry} {report report' : Report}

/-! ## Reading the sources in trees that agree -/

section Sources

variable (h : Agree places t t') (hclosed : Closed places) (hout : ∀ q, ¬ destination <+: q → places q)
  (ht : t.WellFormed) (ht' : t'.WellFormed) (hroot : t.locate job.source = .ok root)
  (hroot' : t'.locate job.source = .ok root)

include h hout ht ht' in
theorem filesBelow_congr (root : Location) :
    ((t'.filesBelow root).filter fun file => !destination.isPrefixOf (root ++ file.1)) =
      (t.filesBelow root).filter fun file => !destination.isPrefixOf (root ++ file.1) := by
  have hsorted : ∀ t : FileTree, ((t.filesBelow root).filter fun file =>
      !destination.isPrefixOf (root ++ file.1)).Pairwise
        fun a b => Text.inOrder a.1 b.1 = true := by
    intro t
    refine List.Pairwise.filter _ (List.pairwise_mergeSort ?_ ?_ _)
    · intro a b c hab hbc
      exact Text.inOrder_trans hab hbc
    · intro a b
      exact Text.inOrder_total a.1 b.1
  have hnodup : ∀ t : FileTree, t.WellFormed → ((t.filesBelow root).filter fun file =>
      !destination.isPrefixOf (root ++ file.1)).Nodup :=
    fun t ht => (FileTree.filesBelow_nodup ht root).of_map.filter _
  have hmem : ∀ file, (file ∈ (t'.filesBelow root).filter fun file =>
      !destination.isPrefixOf (root ++ file.1)) ↔ file ∈ (t.filesBelow root).filter fun file =>
        !destination.isPrefixOf (root ++ file.1) := by
    rintro ⟨names, contents⟩
    rw [List.mem_filter, List.mem_filter, FileTree.mem_filesBelow ht, FileTree.mem_filesBelow ht']
    refine and_congr_left fun houtside => and_congr_right fun _ => ?_
    have hplaces := hout (root ++ names) fun hbelow => by
      simp [List.isPrefixOf_iff_prefix.2 hbelow] at houtside
    rw [FileTree.contents?, FileTree.contents?, h.at? _ hplaces]
  refine List.Perm.eq_of_pairwise ?_ (hsorted t') (hsorted t)
    ((List.perm_ext_iff_of_nodup (hnodup t' ht') (hnodup t ht)).2 hmem)
  intro a b ha hb hab hba
  have hnames := Text.inOrder_antisymm hab hba
  obtain ⟨names, contents⟩ := a
  obtain ⟨names', contents'⟩ := b
  obtain rfl : names = names' := hnames
  have hone := ((FileTree.mem_filesBelow ht).1 (List.mem_filter.1 ((hmem _).1 ha)).1).2
  have htwo := ((FileTree.mem_filesBelow ht).1 (List.mem_filter.1 hb).1).2
  rw [hone] at htwo
  rw [Option.some.inj htwo]

include h hout ht ht' hroot hroot' in
theorem sourceFiles_congr :
    ((job.sourceFiles t').filter fun file => !destination.isPrefixOf file.place) =
      (job.sourceFiles t).filter fun file => !destination.isPrefixOf file.place := by
  have hfilter : ∀ f : Location × ByteArray → Option SourceFile,
      (∀ found file, f found = some file → file.place = root ++ found.1) →
      ∀ files : List (Location × ByteArray),
        (files.filterMap f).filter (fun file => !destination.isPrefixOf file.place) =
        (files.filter fun found => !destination.isPrefixOf (root ++ found.1)).filterMap f := by
    intro f hf files
    rw [List.filter_filterMap, List.filterMap_filter]
    refine List.filterMap_congr fun found _ => ?_
    cases hfile : f found with
    | none => simp
    | some file => simp [Option.filter, hf found file hfile]
  have hplace : ∀ (found : Location × ByteArray) (file : SourceFile),
      (if Path.extension? (Text.join "/" found.1) == some job.settings.sourceExtension then
        some (SourceFile.mk (Text.join "/" found.1) (root ++ found.1)) else none) = some file →
      file.place = root ++ found.1 := by
    intro found file hfile
    split at hfile
    · rw [← Option.some.inj hfile]
    · cases hfile
  rw [sourceFiles, sourceFiles, hroot, hroot']
  simp only
  rw [hfilter _ hplace, hfilter _ hplace, filesBelow_congr h hout ht ht']

include h hclosed hout ht ht' hroot hroot' in
/-- Trees that agree outside the destination have the same source files. -/
theorem readSources_congr : job.readSources t' destination = job.readSources t destination := by
  have hread : ∀ file ∈ (job.sourceFiles t).filter fun file => !destination.isPrefixOf file.place,
      job.readSource t' file.path = job.readSource t file.path := by
    intro file hfile
    obtain ⟨names, hne, hpath, hcontents, -, houtside⟩ :=
      (mem_sourceFiles ht hroot).1 (List.mem_map_of_mem hfile)
    have hnames : ∀ name ∈ names, Path.IsName name := fun name hname =>
      ht.isName_of_contents? hcontents name (List.mem_append_right root hname)
    have hlocate := FileTree.locate_append hroot hne hnames
    have hlocate' := FileTree.locate_append hroot' hne hnames
    rw [h.walk hclosed (hout _ houtside) hnames, ← hlocate] at hlocate'
    have htext := h.read hlocate' fun q hq => by
      rw [hlocate] at hq
      exact FileTree.walk_names hnames hq ▸ hout _ houtside
    rw [hpath]
    simp only [readSource, htext]
  simp only [readSources, sourceFiles_congr h hout ht ht' hroot hroot', List.map_congr_left hread]

include h hclosed hroot hroot' in
theorem rootPackage?_congr (hplaces : places (root ++ ["__init__.py"])) :
    job.rootPackage? t' = job.rootPackage? t := by
  have hname : ∀ name ∈ ["__init__.py"], Path.IsName name := by decide
  have hlocate := FileTree.locate_append hroot (by simp) hname
  have hlocate' := FileTree.locate_append hroot' (by simp) hname
  rw [h.walk hclosed hplaces hname, ← hlocate] at hlocate'
  have hentry := h.entry hlocate' fun q hq => by
    rw [hlocate] at hq
    exact FileTree.walk_names hname hq ▸ hplaces
  have hjoin : Text.join "/" ["__init__.py"] = "__init__.py" := by decide
  rw [hjoin] at hentry
  rw [rootPackage?, rootPackage?, hroot, hroot', FileTree.isFile, FileTree.isFile, hentry]

end Sources


/-! ## The course of a run -/

theorem openDestination_eq_ok (h : job.openDestination.run.run t = (.ok destination, opened)) :
    t.ensureDirectories job.destination = (.ok (), opened) ∧
      opened.locate job.destination = .ok destination := by
  simp only [openDestination, OnFiles.run_bind, OnFiles.run_get, OnFiles.run_set] at h
  generalize t.ensureDirectories job.destination = result at h ⊢
  obtain ⟨outcome, made⟩ := result
  cases outcome with
  | error problem => cases (Prod.mk.inj h).1
  | ok _ =>
    cases hplace : made.locate job.destination with
    | error problem =>
      simp only [hplace] at h
      cases (Prod.mk.inj h).1
    | ok place =>
      simp only [hplace] at h
      obtain ⟨hdest, rfl⟩ := Prod.mk.inj h
      exact ⟨rfl, by rw [hplace, Except.ok.inj hdest]⟩

/-- The course of a run that is reported. -/
theorem run_eq_ok (h : job.run.run.run t = (.ok report, after)) :
    ∃ opened destination made, t.isDirectory job.source = true ∧
      t.ensureDirectories job.destination = (.ok (), opened) ∧
      opened.locate job.destination = .ok destination ∧
      (((job.rooted opened).indexOf opened destination).modules.mapM
        ((job.rooted opened).process ((job.rooted opened).indexOf opened destination))).run.run opened =
          (.ok made, after) ∧
      report.entries.Perm (((job.rooted opened).readSources opened destination).1 ++ made) := by
  rw [run_eq] at h
  split at h
  · next hsource =>
    rcases hopen : job.openDestination.run.run t with ⟨failure | destination, opened⟩
    · rw [hopen] at h
      cases (Prod.mk.inj h).1
    · obtain ⟨hmade, hdest⟩ := openDestination_eq_ok hopen
      rw [hopen] at h
      simp only [turnAll] at h
      generalize hturns : (((job.rooted opened).indexOf opened destination).modules.mapM
        ((job.rooted opened).process ((job.rooted opened).indexOf opened destination))).run.run opened =
          result at h
      obtain ⟨failure | made, after'⟩ := result
      · cases (Prod.mk.inj h).1
      · obtain ⟨hreport, rfl⟩ := Prod.mk.inj h
        obtain rfl := Except.ok.inj hreport
        exact ⟨opened, destination, made, hsource, hmade, hdest, hturns, Report.sorted_perm _⟩
  · cases (Prod.mk.inj h).1


/-! ## What a stub can depend on -/

/-- Whether two trees have the same sources, the same seed, and the same in the place of a stub and in
the directories around it.  What else stands in the destination may differ. -/
structure SameFor (job : Job) (destination : Location) (source : String) (t t' : FileTree) : Prop where
  /-- They have one working directory. -/
  home : t'.home = t.home
  /-- They have the same outside the destination. -/
  outside : ∀ place, ¬ destination <+: place → t'.at? place = t.at? place
  /-- They have the same on the way to the stub. -/
  stub : ∀ place, place <+: job.stubPlace destination source → t'.at? place = t.at? place
  /-- They have the same seed, which is not inside the destination. -/
  seed : ∀ seed, job.seed = some seed → ∃ place, t.locate seed = .ok place ∧
    t'.locate seed = .ok place ∧ ¬ destination <+: place ∧
    ∀ q, place <+: q → t'.at? q = t.at? q

/-- The places that a stub can depend on: those outside the destination, those on the way to the stub and
those of the seed; and those below a directory that is missing on the way, where nothing stands. -/
def Concerns (job : Job) (t : FileTree) (destination : Location) (source : String) (q : Location) :
    Prop :=
  ¬ destination <+: q ∨ q <+: job.stubPlace destination source ∨
    (∃ seed place, job.seed = some seed ∧ t.locate seed = .ok place ∧ ¬ destination <+: place ∧
      place <+: q) ∨
    ∃ missing, missing <+: job.stubPlace destination source ∧ t.at? missing = none ∧ missing <+: q

theorem concerns_closed (job : Job) (t : FileTree) (destination : Location) (source : String) :
    Closed (job.Concerns t destination source) := by
  rintro p q hpq (houtside | hon | ⟨seed, place, hseed, hplace, hoff, hbelow⟩ |
    ⟨missing, hon, hnone, hbelow⟩)
  · exact .inl fun hp => houtside (hp.trans hpq)
  · exact .inr (.inl (hpq.trans hon))
  · rcases List.prefix_or_prefix_of_prefix hbelow hpq with hp | hp
    · exact .inr (.inr (.inl ⟨seed, place, hseed, hplace, hoff, hp⟩))
    · exact .inl fun hin => hoff (hin.trans hp)
  · rcases List.prefix_or_prefix_of_prefix hbelow hpq with hp | hp
    · exact .inr (.inr (.inr ⟨missing, hon, hnone, hp⟩))
    · exact .inr (.inl (hp.trans hon))

theorem concerns_stub (job : Job) (t : FileTree) (destination : Location) (source : String) :
    job.Concerns t destination source (job.stubPlace destination source) :=
  .inr (.inl List.prefix_rfl)

theorem concerns_destination (job : Job) (t : FileTree) (destination : Location) (source : String) :
    job.Concerns t destination source destination :=
  .inr (.inl (List.prefix_append _ _))

/-- Entries that are alike at some places are the same there. -/
theorem mem_iff_of_forall₂ {e : ReportEntry} (h : List.Forall₂ (fun e e' => e.source = e'.source ∧
      (places (job.stubPlace destination e.source) → e = e')) es es')
    (hplaces : places (job.stubPlace destination e.source)) : e ∈ es ↔ e ∈ es' := by
  induction h with
  | nil => rfl
  | @cons a b es es' hab _ ih =>
    have hiff : e = a ↔ e = b := by
      constructor
      · rintro rfl
        exact hab.2 hplaces
      · rintro rfl
        exact (hab.2 (hab.1 ▸ hplaces)).symm
    rw [List.mem_cons, List.mem_cons, hiff, ih]

/-- Trees that are the same for a stub are alike when the destination is made in both. -/
theorem SameFor.alike (h : job.SameFor destination source t t')
    (hin : t.InDirectories) (hin' : t'.InDirectories)
    (hmade : t.ensureDirectories job.destination = (.ok (), opened))
    (hmade' : t'.ensureDirectories job.destination = (.ok (), opened'))
    (hdest : opened.locate job.destination = .ok destination)
    (hdest' : opened'.locate job.destination = .ok destination) :
    job.Alike destination (job.Concerns opened destination source) opened opened' := by
  have hmakes : Makes t opened := by
    simpa only [hmade] using FileTree.makes_ensureDirectories t job.destination
  have hmakes' : Makes t' opened' := by
    simpa only [hmade'] using FileTree.makes_ensureDirectories t' job.destination
  have halters := hmakes.alters fun _ => False
  have halters' := hmakes'.alters fun _ => False
  have hopened : ∀ q, t'.at? q = t.at? q → opened'.at? q = opened.at? q := fun q =>
    FileTree.at?_congr_ensureDirectories h.home hmade hmade' hdest hdest'
  have hdirectory := FileTree.isDirectory_of_ensureDirectories hmade hdest
  obtain ⟨place, hplace, hdirectory⟩ := FileTree.isDirectory_iff.1 hdirectory
  obtain rfl := Except.ok.inj (hplace.symm.trans hdest)
  refine ⟨⟨?_, ?_⟩, hdest, hdest', hdirectory, ?_, ?_⟩
  · rw [halters'.home, halters.home, h.home]
  · rintro q (houtside | hon | ⟨seed, start, hseed, hstart, -, hbelow⟩ | ⟨missing, hon, hnone, hbelow⟩)
    · exact hopened q (h.outside q houtside)
    · exact hopened q (h.stub q hon)
    · obtain ⟨start', hstart', -, -, hsame⟩ := h.seed seed hseed
      obtain rfl := Except.ok.inj ((halters.locate hstart').symm.trans hstart)
      exact hopened q (hsame q hbelow)
    · -- nothing stands below a directory that is missing in both
      have hnone' := (hopened missing (h.stub missing hon)).trans hnone
      rw [(hmakes.inDirectories hin).at?_eq_none hnone hbelow,
        (hmakes'.inDirectories hin').at?_eq_none hnone' hbelow]
  · intro seed hseed
    obtain ⟨start, hstart, hstart', hoff, -⟩ := h.seed seed hseed
    exact ⟨start, halters.locate hstart, halters'.locate hstart', fun q hbelow =>
      .inr (.inr (.inl ⟨seed, start, hseed, halters.locate hstart, hoff, hbelow⟩))⟩
  · rintro p q (houtside | hon | ⟨seed, start, hseed, hstart, hoff, hbelow⟩ |
      ⟨missing, hon, hnone, hbelow⟩) hp hpq hq
    · exact absurd hp houtside
    · exact fun hnone => hq (.inr (.inr (.inr ⟨p, hon, hnone, hpq⟩)))
    · exact absurd (.inr (.inr (.inl ⟨seed, start, hseed, hstart, hoff, hbelow.trans hpq⟩))) hq
    · exact absurd (.inr (.inr (.inr ⟨missing, hon, hnone, hbelow.trans hpq⟩))) hq

/-- The turns of two runs over trees that are the same for a stub. -/
theorem SameFor.turns {made made' : List ReportEntry} (h : job.SameFor destination source t t')
    (ht : t.WellFormed) (ht' : t'.WellFormed) (hin : t.InDirectories) (hin' : t'.InDirectories)
    (hstubs : job.settings.NamesStubs) (hsource : job.IsSource t root destination source)
    (hroot : t.locate job.source = .ok root) (hroot' : t'.locate job.source = .ok root)
    (hmade : t.ensureDirectories job.destination = (.ok (), opened))
    (hmade' : t'.ensureDirectories job.destination = (.ok (), opened'))
    (hdest : opened.locate job.destination = .ok destination)
    (hdest' : opened'.locate job.destination = .ok destination)
    (hturns : (((job.rooted opened).indexOf opened destination).modules.mapM
      ((job.rooted opened).process ((job.rooted opened).indexOf opened destination))).run.run opened =
        (.ok made, after))
    (hturns' : (((job.rooted opened').indexOf opened' destination).modules.mapM
      ((job.rooted opened').process ((job.rooted opened').indexOf opened' destination))).run.run opened' =
        (.ok made', after')) :
    (job.rooted opened').readSources opened' destination =
        (job.rooted opened).readSources opened destination ∧
      after'.at? (job.stubPlace destination source) = after.at? (job.stubPlace destination source) ∧
      ∀ e : ReportEntry, e.source = source → (e ∈ made ↔ e ∈ made') := by
  have hmakes : Makes t opened := by
    simpa only [hmade] using FileTree.makes_ensureDirectories t job.destination
  have hmakes' : Makes t' opened' := by
    simpa only [hmade'] using FileTree.makes_ensureDirectories t' job.destination
  have hroot : opened.locate job.source = .ok root := (hmakes.alters fun _ => False).locate hroot
  have hroot' : opened'.locate job.source = .ok root := (hmakes'.alters fun _ => False).locate hroot'
  have hopens : (job.rooted opened).Opens t opened root destination := ⟨ht, hstubs, hmakes, hroot, hdest⟩
  have halike := h.alike hin hin' hmade hmade' hdest hdest'
  have hclosed := concerns_closed job opened destination source
  -- both runs read the same sources
  have hinit : job.Concerns opened destination source (root ++ ["__init__.py"]) := by
    by_cases hbelow : destination <+: root ++ ["__init__.py"]
    · rcases List.prefix_concat_iff.1 hbelow with heq | hin
      · rw [← heq]
        exact concerns_destination job opened destination source
      · obtain ⟨names, -, -, -, -, houtside⟩ := hsource
        exact absurd (hin.trans (List.prefix_append _ _)) houtside
    · exact .inl hbelow
  have hjob : job.rooted opened' = job.rooted opened := by
    rw [rooted, rooted, rootPackage?_congr halike.agree hclosed hroot hroot' hinit]
  have hread : (job.rooted opened).readSources opened' destination =
      (job.rooted opened).readSources opened destination :=
    readSources_congr halike.agree hclosed (fun _ => .inl) (hmakes.wellFormed ht)
      (hmakes'.wellFormed ht') hroot hroot'
  have hindex : (job.rooted opened').indexOf opened' destination =
      (job.rooted opened).indexOf opened destination := by
    rw [hjob, indexOf, indexOf, hread]
  -- so they take the same turns
  rw [hindex, hjob] at hturns'
  have hrooted : (job.rooted opened).Alike destination (job.Concerns opened destination source)
      opened opened' :=
    ⟨halike.agree, halike.located, halike.located', halike.directory, halike.seed, halike.around⟩
  obtain ⟨hlast, hentries⟩ := hrooted.turns hclosed (concerns_destination job opened destination source)
    (fun _ hm => hopens.isName hm) hturns hturns'
  have hstub := concerns_stub job opened destination source
  refine ⟨by rw [hjob, hread], hlast.agree.at? _ hstub, fun e he => ?_⟩
  exact mem_iff_of_forall₂ hentries (he ▸ hstub)

/-! ## Two runs -/

/-- **Stubs do not depend on each other.**  Of two runs that are both reported, over trees that differ in
other stubs only, both leave the same in the place of a stub and report the same of its source file. -/
theorem run_independent (ht : t.WellFormed) (ht' : t'.WellFormed) (hin : t.InDirectories)
    (hin' : t'.InDirectories) (hstubs : job.settings.NamesStubs)
    (hrun : job.run.run.run t = (.ok report, after))
    (hrun' : job.run.run.run t' = (.ok report', after')) (hroot : t.locate job.source = .ok root)
    (hdest : after.locate job.destination = .ok destination)
    (hsource : job.IsSource t root destination source)
    (hsame : job.SameFor destination source t t') :
    after'.at? (job.stubPlace destination source) = after.at? (job.stubPlace destination source) ∧
      ∀ e : ReportEntry, e.source = source → (e ∈ report.entries ↔ e ∈ report'.entries) := by
  obtain ⟨opened, place, made, -, hmade, hplace, hturns, hreport⟩ := run_eq_ok hrun
  obtain ⟨opened', place', made', hdirectory', hmade', hplace', hturns', hreport'⟩ := run_eq_ok hrun'
  have hmakes : Makes t opened := by
    simpa only [hmade] using FileTree.makes_ensureDirectories t job.destination
  have hmakes' : Makes t' opened' := by
    simpa only [hmade'] using FileTree.makes_ensureDirectories t' job.destination
  have halters := hmakes.alters fun _ => False
  have hhome : opened'.home = opened.home := by
    rw [(hmakes'.alters fun _ => False).home, halters.home, hsame.home]
  obtain rfl := FileTree.locate_unique hhome hplace hplace'
  obtain ⟨root', hroot', -⟩ := FileTree.isDirectory_iff.1 hdirectory'
  obtain rfl := FileTree.locate_unique hsame.home hroot hroot'
  -- the destination stays where it was made
  obtain rfl : place = destination := by
    have hopens : (job.rooted opened).Opens t opened root place :=
      ⟨ht, hstubs, hmakes, halters.locate hroot, hplace⟩
    obtain ⟨es, ending, hall, -⟩ := turns_mapM (job.rooted opened)
      ((job.rooted opened).indexOf opened place) opened ((job.rooted opened).indexOf opened place).modules
    rw [hturns] at hall
    have hkept := (hall.alters hplace fun _ hm => hopens.isName hm).locate hplace
    exact Except.ok.inj (hkept.symm.trans hdest)
  obtain ⟨hread, hat, hentries⟩ := hsame.turns ht ht' hin hin' hstubs hsource hroot hroot' hmade hmade'
    hplace hplace' hturns hturns'
  refine ⟨hat, fun e he => ?_⟩
  rw [hreport.mem_iff, hreport'.mem_iff, hread, List.mem_append, List.mem_append, hentries e he]

/-- A tree with one source file and an empty destination. -/
def clearTree : FileTree := plainTree.put ["work", "out"] .directory

/-- The tree with a text in the destination that is no stub. -/
def strayTree : FileTree := clearTree.put ["work", "out", "b.pyi"] (.file "def (".toUTF8)

theorem clearTree_wellFormed : clearTree.WellFormed :=
  plainTree_wellFormed.put (by decide +kernel) .directory

theorem strayTree_wellFormed : strayTree.WellFormed :=
  clearTree_wellFormed.put (by decide +kernel) _

theorem clearTree_inDirectories : clearTree.InDirectories := by
  have hplain : plainTree.InDirectories := by
    refine FileTree.inDirectories_of_mem fun p hp => ?_
    simp only [plainTree, List.mem_cons, List.not_mem_nil, or_false] at hp
    rcases hp with rfl | rfl | rfl <;> rfl
  exact hplain.put (by decide) rfl fun _ => rfl

theorem strayTree_inDirectories : strayTree.InDirectories :=
  clearTree_inDirectories.put (by decide) rfl fun h => by cases h

/-- The trees differ in the stray text only. -/
theorem sameFor_stray : plainJob.SameFor ["work", "out"] "a.py" clearTree strayTree where
  home := rfl
  outside := by
    intro place houtside
    rw [strayTree, FileTree.at?_put clearTree (by decide), if_neg]
    rintro rfl
    exact houtside (by decide)
  stub := by
    intro place hon
    rw [strayTree, FileTree.at?_put clearTree (by decide), if_neg]
    rintro rfl
    revert hon
    decide +kernel
  seed := by
    intro seed hseed
    cases hseed

theorem run_independent_stray : ∃ report report' after after',
    plainJob.run.run.run clearTree = (.ok report, after) ∧
    plainJob.run.run.run strayTree = (.ok report', after') ∧
    report.entries.map (·.status) = [.written] ∧
    plainJob.IsSource clearTree ["work", "src"] ["work", "out"] "a.py" ∧
    plainJob.SameFor ["work", "out"] "a.py" clearTree strayTree ∧
    after'.at? (plainJob.stubPlace ["work", "out"] "a.py") =
      after.at? (plainJob.stubPlace ["work", "out"] "a.py") ∧
    ∀ e : ReportEntry, e.source = "a.py" → (e ∈ report.entries ↔ e ∈ report'.entries) := by
  have hstubs : plainJob.settings.NamesStubs := ⟨by decide +kernel, by decide +kernel⟩
  have hstatus : (match (plainJob.run.run.run clearTree).1 with
      | .ok report => some (report.entries.map (·.status))
      | .error _ => none) = some [.written] := by
    decide +kernel
  have hstatus' : (match (plainJob.run.run.run strayTree).1 with
      | .ok report => some (report.entries.map (·.status))
      | .error _ => none) = some [.written] := by
    decide +kernel
  have hroot : clearTree.locate plainJob.source = .ok ["work", "src"] := by decide +kernel
  have hdest : (plainJob.run.run.run clearTree).2.locate plainJob.destination = .ok ["work", "out"] := by
    decide +kernel
  have hsource : plainJob.IsSource clearTree ["work", "src"] ["work", "out"] "a.py" :=
    ⟨["a.py"], by decide, by decide +kernel, by decide +kernel, by decide +kernel, by decide +kernel⟩
  rcases hrun : plainJob.run.run.run clearTree with ⟨failure | report, after⟩
  · rw [hrun] at hstatus
    cases hstatus
  rcases hrun' : plainJob.run.run.run strayTree with ⟨failure | report', after'⟩
  · rw [hrun'] at hstatus'
    cases hstatus'
  rw [hrun] at hstatus hdest
  exact ⟨report, report', after, after', rfl, rfl, Option.some.inj hstatus, hsource, sameFor_stray,
    run_independent clearTree_wellFormed strayTree_wellFormed clearTree_inDirectories
      strayTree_inDirectories hstubs hrun hrun' hroot hdest hsource sameFor_stray⟩

end TypedStubs.Job
