import TypedStubs.Proofs.FileTree.Agree
import TypedStubs.Proofs.Generation.Turn

/-! # Turns in two trees

`Alike` says that two trees agree at some places, and that nothing is made there by a turn whose stub
stands elsewhere.  A turn whose stub stands at one of the places ends alike in both trees
(`Alike.process_on`), any other changes nothing at the places (`Alike.process_off`), and so the trees are
alike after any number of turns (`Alike.turns`).
-/
namespace TypedStubs.Job

open FileTree (Alters Agree Closed)

variable {job : Job} {index : SourceIndex} {t t' u u' : FileTree} {m : SourceModule}
  {destination : Location} {places : Location → Prop} {ms : List SourceModule}
  {es es' : List ReportEntry}

/-! ## Storing a stub at its place -/

theorem ensureDirectories_targetPath (hdest : t.locate job.destination = .ok destination)
    (hdirectory : t.at? destination = some .directory)
    (hnames : ∀ name ∈ job.stubNames m.path, Path.IsName name) :
    t.ensureDirectories (Path.parent (job.targetPath m)) =
      t.makeDown destination (job.stubNames m.path).dropLast.reverse := by
  have hne := stubNames_ne_nil job m.path
  have hsplit := List.dropLast_append_getLast hne
  rw [targetPath, stubPath_eq]
  nth_rewrite 1 [← hsplit]
  exact FileTree.ensureDirectories_parent hdest hdirectory
    (fun name hname => hnames name (List.dropLast_subset _ hname)) (hnames _ (List.getLast_mem hne))

/-- The names of a stub but the last lead to where it stands. -/
theorem dropLast_stubPlace (job : Job) (destination : Location) (source : String) :
    destination ++ (job.stubNames source).dropLast <+: job.stubPlace destination source :=
  (List.prefix_append_right_inj destination).2 (List.dropLast_prefix _)

/-- What storing a stub changes stands on the way to it, where nothing stood or the stub does. -/
theorem at?_store (hdest : t.locate job.destination = .ok destination)
    (hdirectory : t.at? destination = some .directory)
    (hnames : ∀ name ∈ job.stubNames m.path, Path.IsName name) (text : String) (q : Location) :
    ((store (job.targetPath m) text).run.run t).2.at? q = t.at? q ∨
      destination <+: q ∧ q <+: job.stubPlace destination m.path ∧
        (t.at? q = none ∨ q = job.stubPlace destination m.path) := by
  have hfront : ∀ name ∈ (job.stubNames m.path).dropLast.reverse, Path.IsName name := fun name hname =>
    hnames name (List.dropLast_subset _ (List.mem_reverse.1 hname))
  have hmade := t.at?_makeDown destination hfront q
  have halters := (FileTree.makes_ensureDirectories t (Path.parent (job.targetPath m))).alters
    fun _ => False
  rw [ensureDirectories_targetPath hdest hdirectory hnames] at halters
  rw [run_store, ensureDirectories_targetPath hdest hdirectory hnames]
  rw [List.reverse_reverse] at hmade
  generalize t.makeDown destination (job.stubNames m.path).dropLast.reverse = result at hmade halters
  obtain ⟨outcome, made⟩ := result
  have hkept : made.at? q = t.at? q ∨ destination <+: q ∧ q <+: job.stubPlace destination m.path ∧
      (t.at? q = none ∨ q = job.stubPlace destination m.path) :=
    hmade.imp_right fun ⟨hnone, hbelow, hon⟩ =>
      ⟨hbelow, hon.trans (dropLast_stubPlace job destination m.path), .inl hnone⟩
  cases outcome with
  | error problem => exact hkept
  | ok _ =>
    simp only
    cases hwrite : made.writeFile (job.targetPath m) text.toUTF8 with
    | error problem => exact hkept
    | ok written =>
      obtain ⟨place, hplace, hfile, rfl⟩ := FileTree.writeFile_eq_ok hwrite
      obtain rfl := place_of_locate (halters.locate hdest) hnames hplace
      simp only
      rw [FileTree.at?_put made (FileTree.ne_nil_of_at? rfl hfile)]
      by_cases hq : q = job.stubPlace destination m.path
      · exact .inr ⟨hq ▸ List.prefix_append _ _, hq ▸ List.prefix_rfl, .inr hq⟩
      · rw [if_neg hq]
        exact hkept

/-- A stub is stored in both trees, or in none of them for one reason. -/
theorem store_alike (h : Agree places t t') (hclosed : Closed places)
    (hplaces : places (job.stubPlace destination m.path))
    (hdest : t.locate job.destination = .ok destination)
    (hdest' : t'.locate job.destination = .ok destination)
    (hdirectory : t.at? destination = some .directory)
    (hnames : ∀ name ∈ job.stubNames m.path, Path.IsName name) (text : String) :
    ((store (job.targetPath m) text).run.run t').1 = ((store (job.targetPath m) text).run.run t).1 ∧
      Agree places ((store (job.targetPath m) text).run.run t).2
        ((store (job.targetPath m) text).run.run t').2 := by
  have hdirectory' := (h.at? destination (hclosed _ _ (List.prefix_append _ _) hplaces)).trans hdirectory
  have halters := (FileTree.makes_ensureDirectories t (Path.parent (job.targetPath m))).alters
    fun _ => False
  have halters' := (FileTree.makes_ensureDirectories t' (Path.parent (job.targetPath m))).alters
    fun _ => False
  have hfront : ∀ name ∈ (job.stubNames m.path).dropLast.reverse, Path.IsName name := fun name hname =>
    hnames name (List.dropLast_subset _ (List.mem_reverse.1 hname))
  have haround : places (destination ++ (job.stubNames m.path).dropLast.reverse.reverse) := by
    rw [List.reverse_reverse]
    exact hclosed _ _ (dropLast_stubPlace job destination m.path) hplaces
  obtain ⟨hout, hmade⟩ := h.makeDown hclosed haround hfront
  rw [ensureDirectories_targetPath hdest hdirectory hnames] at halters
  rw [ensureDirectories_targetPath hdest' hdirectory' hnames] at halters'
  rw [run_store, run_store, ensureDirectories_targetPath hdest hdirectory hnames,
    ensureDirectories_targetPath hdest' hdirectory' hnames]
  generalize t.makeDown destination (job.stubNames m.path).dropLast.reverse = result
    at hout hmade halters
  generalize t'.makeDown destination (job.stubNames m.path).dropLast.reverse = result'
    at hout hmade halters'
  obtain ⟨outcome, made⟩ := result
  obtain ⟨outcome', made'⟩ := result'
  obtain rfl := hout
  cases outcome' with
  | error problem => exact ⟨rfl, hmade⟩
  | ok _ =>
    have hlocate := locate_targetPath (halters.locate hdest) hnames
    have hlocate' := locate_targetPath (halters'.locate hdest') hnames
    rw [hmade.walk hclosed hplaces hnames, ← hlocate] at hlocate'
    have hplace : ∀ q, made.locate (job.targetPath m) = .ok q → places q := fun q hq =>
      place_of_locate (halters.locate hdest) hnames hq ▸ hplaces
    rcases hmade.writeFile hlocate' hplace text.toUTF8 with
      ⟨problem, hone, htwo⟩ | ⟨written, written', hone, htwo, hwritten⟩
    · simp only [hone, htwo]
      exact ⟨trivial, hmade⟩
    · simp only [hone, htwo]
      exact ⟨trivial, hwritten⟩


/-! ## Turns in trees that are alike -/

/-- Whether two trees are alike for the turns of a job at some places: they have the same there, the
stubs and the seed stand at one place in both, and a place around one that is left out is there. -/
structure Alike (job : Job) (destination : Location) (places : Location → Prop) (t t' : FileTree) :
    Prop where
  /-- They agree. -/
  agree : Agree places t t'
  /-- Where the stubs stand in the first. -/
  located : t.locate job.destination = .ok destination
  /-- Where the stubs stand in the second. -/
  located' : t'.locate job.destination = .ok destination
  /-- The destination is a directory. -/
  directory : t.at? destination = some .directory
  /-- Where the seed stands, and that the places are all those below it. -/
  seed : ∀ seed, job.seed = some seed → ∃ place, t.locate seed = .ok place ∧
    t'.locate seed = .ok place ∧ ∀ q, place <+: q → places q
  /-- What there is around the places that are left out. -/
  around : ∀ p q, places p → destination <+: p → p <+: q → ¬ places q → t.at? p ≠ none

/-- A turn changes at most what stands on the way to its stub, where nothing stood or the stub does. -/
theorem at?_process (hdest : t.locate job.destination = .ok destination)
    (hdirectory : t.at? destination = some .directory)
    (hnames : ∀ name ∈ job.stubNames m.path, Path.IsName name) (q : Location) :
    ((job.process index m).run.run t).2.at? q = t.at? q ∨
      destination <+: q ∧ q <+: job.stubPlace destination m.path ∧
        (t.at? q = none ∨ q = job.stubPlace destination m.path) := by
  rw [process_eq]
  split
  · exact .inl rfl
  · exact .inl rfl
  · next current existing _ =>
    rcases buildStub job.settings index m existing with ⟨stub, tally⟩
    simp only
    split
    · exact .inl rfl
    · have hstore := at?_store hdest hdirectory hnames stub.render q
      generalize (store (job.targetPath m) stub.render).run.run t = result at hstore
      obtain ⟨outcome, after⟩ := result
      cases outcome <;> exact hstore


namespace Alike

theorem readIfThere (h : job.Alike destination places t t') {path : String}
    (hlocate : t'.locate path = t.locate path) (hplaces : ∀ q, t.locate path = .ok q → places q) :
    readIfThere t' path = readIfThere t path := by
  rw [Job.readIfThere, Job.readIfThere, h.agree.read hlocate hplaces]

/-- What is found of a stub. -/
theorem found (h : job.Alike destination places t t') (hclosed : Closed places)
    (hplaces : places (job.stubPlace destination m.path))
    (hnames : ∀ name ∈ job.stubNames m.path, Path.IsName name) : job.found t' m = job.found t m := by
  have htarget : Job.readIfThere t' (job.targetPath m) = Job.readIfThere t (job.targetPath m) := by
    refine h.readIfThere ?_ fun q hq => place_of_locate h.located hnames hq ▸ hplaces
    rw [locate_targetPath h.located hnames, locate_targetPath h.located' hnames]
    exact h.agree.walk hclosed hplaces hnames
  have hexisting : ∀ current, job.existingStub t' current (job.stubPath m) =
      job.existingStub t current (job.stubPath m) := by
    intro current
    cases current with
    | some text => rfl
    | none =>
      cases hseed : job.seed with
      | none => simp only [existingStub, hseed]
      | some seed =>
        obtain ⟨place, hplace, hplace', hbelow⟩ := h.seed seed hseed
        have hread : Job.readIfThere t' (Path.append seed (job.stubPath m)) =
            Job.readIfThere t (Path.append seed (job.stubPath m)) := by
          have hlocate := FileTree.locate_append hplace (stubNames_ne_nil job m.path) hnames
          have hlocate' := FileTree.locate_append hplace' (stubNames_ne_nil job m.path) hnames
          rw [← stubPath_eq] at hlocate hlocate'
          refine h.readIfThere ?_ fun q hq => ?_
          · rw [hlocate, hlocate']
            exact h.agree.walk hclosed (hbelow _ (List.prefix_append _ _)) hnames
          · rw [hlocate] at hq
            exact FileTree.walk_names hnames hq ▸ hbelow _ (List.prefix_append _ _)
        simp only [existingStub, hseed, hread]
  rw [Job.found, Job.found, htarget]
  simp only [hexisting]

/-- A turn whose stub stands at one of the places ends alike. -/
theorem process_on (h : job.Alike destination places t t') (index : SourceIndex) (hclosed : Closed places)
    (hplaces : places (job.stubPlace destination m.path))
    (hnames : ∀ name ∈ job.stubNames m.path, Path.IsName name) :
    ((job.process index m).run.run t').1 = ((job.process index m).run.run t).1 ∧
      Agree places ((job.process index m).run.run t).2 ((job.process index m).run.run t').2 := by
  rw [process_eq, process_eq, h.found hclosed hplaces hnames]
  split
  · exact ⟨rfl, h.agree⟩
  · exact ⟨rfl, h.agree⟩
  · next current existing hfound =>
    rcases buildStub job.settings index m existing with ⟨stub, tally⟩
    simp only
    split
    · exact ⟨rfl, h.agree⟩
    · obtain ⟨hout, hagree⟩ := store_alike h.agree hclosed hplaces h.located h.located' h.directory hnames
        stub.render
      generalize (store (job.targetPath m) stub.render).run.run t = result at hout hagree
      generalize (store (job.targetPath m) stub.render).run.run t' = result' at hout hagree
      obtain ⟨outcome, after⟩ := result
      obtain ⟨outcome', after'⟩ := result'
      obtain rfl := hout
      cases outcome' <;> exact ⟨rfl, hagree⟩

/-- Trees stay alike when they change alike. -/
theorem alters (h : job.Alike destination places t t') (hagree : Agree places u u')
    (halters : Alters (fun _ => True) t u) (halters' : Alters (fun _ => True) t' u') :
    job.Alike destination places u u' where
  agree := hagree
  located := halters.locate h.located
  located' := halters'.locate h.located'
  directory := halters.directory h.directory
  seed := by
    intro seed hseed
    obtain ⟨place, hplace, hplace', hbelow⟩ := h.seed seed hseed
    exact ⟨place, halters.locate hplace, halters'.locate hplace', hbelow⟩
  around p q hp hbelow hpq hq := halters.ne_none (h.around p q hp hbelow hpq hq)

theorem symm (h : job.Alike destination places t t') (hplaces : places destination) :
    job.Alike destination places t' t where
  agree := h.agree.symm
  located := h.located'
  located' := h.located
  directory := (h.agree.at? _ hplaces).trans h.directory
  seed := by
    intro seed hseed
    obtain ⟨place, hplace, hplace', hbelow⟩ := h.seed seed hseed
    exact ⟨place, hplace', hplace, hbelow⟩
  around p q hp hbelow hpq hq := by
    rw [h.agree.at? p hp]
    exact h.around p q hp hbelow hpq hq

/-- A turn whose stub stands at none of the places changes nothing there. -/
theorem process_off (h : job.Alike destination places t t') (index : SourceIndex)
    (hplaces : ¬ places (job.stubPlace destination m.path))
    (hnames : ∀ name ∈ job.stubNames m.path, Path.IsName name) :
    Agree places t ((job.process index m).run.run t).2 := by
  have halters := (turn_process job index t m).alters h.located hnames
  refine ⟨halters.home, fun q hq => ?_⟩
  refine (at?_process h.located h.directory hnames q).resolve_right ?_
  rintro ⟨hbelow, hon, hnone | rfl⟩
  · exact h.around q _ hq hbelow hon hplaces hnone
  · exact hplaces hq

/-- A turn leaves trees alike, and ends alike if its stub stands at one of the places. -/
theorem turn (h : job.Alike destination places t t') (index : SourceIndex) (hclosed : Closed places)
    (hdestination : places destination) (hnames : ∀ name ∈ job.stubNames m.path, Path.IsName name) :
    job.Alike destination places ((job.process index m).run.run t).2
        ((job.process index m).run.run t').2 ∧
      (places (job.stubPlace destination m.path) →
        ((job.process index m).run.run t').1 = ((job.process index m).run.run t).1) := by
  have halters : Alters (fun _ => True) t _ :=
    ((turn_process job index t m).alters h.located hnames).mono fun _ _ => trivial
  have halters' : Alters (fun _ => True) t' _ :=
    ((turn_process job index t' m).alters h.located' hnames).mono fun _ _ => trivial
  by_cases hplaces : places (job.stubPlace destination m.path)
  · obtain ⟨hout, hagree⟩ := h.process_on index hclosed hplaces hnames
    exact ⟨h.alters hagree halters halters', fun _ => hout⟩
  · have hone := (h.process_off index hplaces hnames).symm
    have htwo := (h.symm hdestination).process_off index hplaces hnames
    exact ⟨h.alters ((hone.trans h.agree).trans htwo) halters halters',
      fun hthere => absurd hthere hplaces⟩

/-- Turns one after the other leave trees alike, and those whose stubs stand at one of the places end
alike. -/
theorem turns (h : job.Alike destination places t t') (hclosed : Closed places)
    (hdestination : places destination)
    (hnames : ∀ m ∈ ms, ∀ name ∈ job.stubNames m.path, Path.IsName name)
    (hrun : (ms.mapM (job.process index)).run.run t = (.ok es, u))
    (hrun' : (ms.mapM (job.process index)).run.run t' = (.ok es', u')) :
    job.Alike destination places u u' ∧
      List.Forall₂ (fun e e' => e.source = e'.source ∧
        (places (job.stubPlace destination e.source) → e = e')) es es' := by
  induction ms generalizing t t' es es' with
  | nil =>
    obtain ⟨hes, rfl⟩ := Prod.mk.inj hrun
    obtain ⟨hes', rfl⟩ := Prod.mk.inj hrun'
    obtain rfl := Except.ok.inj hes
    obtain rfl := Except.ok.inj hes'
    exact ⟨h, .nil⟩
  | cons m ms ih =>
    obtain ⟨hnext, hsame⟩ := h.turn index hclosed hdestination
      (hnames m List.mem_cons_self)
    have hturn := turn_process job index t m
    have hturn' := turn_process job index t' m
    rw [List.mapM_cons, OnFiles.run_bind] at hrun hrun'
    generalize (job.process index m).run.run t = result at hrun hnext hsame hturn
    generalize (job.process index m).run.run t' = result' at hrun' hnext hsame hturn'
    obtain ⟨outcome, v⟩ := result
    obtain ⟨outcome', v'⟩ := result'
    cases outcome with
    | error failure => cases (Prod.mk.inj hrun).1
    | ok e =>
      cases outcome' with
      | error failure => cases (Prod.mk.inj hrun').1
      | ok e' =>
        simp only [OnFiles.run_bind] at hrun hrun'
        rcases hrest : (ms.mapM (job.process index)).run.run v with ⟨failure | rest, w⟩
        · rw [hrest] at hrun
          cases (Prod.mk.inj hrun).1
        rcases hrest' : (ms.mapM (job.process index)).run.run v' with ⟨failure | rest', w'⟩
        · rw [hrest'] at hrun'
          cases (Prod.mk.inj hrun').1
        rw [hrest] at hrun
        rw [hrest'] at hrun'
        obtain ⟨hes, rfl⟩ := Prod.mk.inj hrun
        obtain ⟨hes', rfl⟩ := Prod.mk.inj hrun'
        obtain rfl := Except.ok.inj hes
        obtain rfl := Except.ok.inj hes'
        obtain ⟨hlast, hall⟩ := ih hnext (fun m hm => hnames m (List.mem_cons_of_mem _ hm)) hrest hrest'
        refine ⟨hlast, .cons ⟨hturn.source.trans hturn'.source.symm, fun hplaces => ?_⟩ hall⟩
        rw [hturn.source] at hplaces
        exact (Except.ok.inj (hsame hplaces)).symm

end Alike

end TypedStubs.Job
