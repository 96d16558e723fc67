import TypedStubs.Proofs.Generation.Source

/-! # The turns of a run

Each module has its turn, in which its stub is built and stored.  `Turn` lists the ways in which a turn
ends, and `turn_process` says that these are all; what follows about a turn is said way by way.  `Turns`
does the same for modules one after the other.

A turn changes no file but the stub of its module, and that one only if it is reported as written
(`Turn.alters`).  So turns one after the other change no files but the stubs that are reported as written
(`Turns.alters`), and every entry is that of one turn, which has the turns before it and after it
(`Turns.split`).
-/
namespace TypedStubs

/-! ## Computations on files -/

namespace OnFiles

variable {α β : Type}

theorem run_bind (x : OnFiles α) (f : α → OnFiles β) (t : FileTree) :
    (x >>= f).run.run t = match x.run.run t with
      | (.error failure, t') => (.error failure, t')
      | (.ok a, t') => (f a).run.run t' := by
  show (match x.run.run t with | (outcome, t') => (ExceptT.bindCont f outcome) t') = _
  obtain ⟨outcome, t'⟩ := x.run.run t
  cases outcome <;> rfl

theorem run_pure (a : α) (t : FileTree) : (pure a : OnFiles α).run.run t = (.ok a, t) := rfl

theorem run_get (t : FileTree) : (get : OnFiles FileTree).run.run t = (.ok t, t) := rfl

theorem run_set (t' t : FileTree) : (set t' : OnFiles Unit).run.run t = (.ok (), t') := rfl

theorem run_liftM (x : StateM FileTree α) (t : FileTree) :
    (liftM x : OnFiles α).run.run t = (.ok (x.run t).1, (x.run t).2) := rfl

end OnFiles

namespace Job

open FileTree (Makes Alters)

variable {job : Job} {index : SourceIndex} {t t' t'' : FileTree} {m : SourceModule}
  {destination : Location}

/-- The path of a module's stub. -/
def targetPath (job : Job) (m : SourceModule) : String :=
  Path.append job.destination (job.stubPath m)

/-- What a tree holds of a module's stub: its text, and the stub to start from. -/
def found (job : Job) (t : FileTree) (m : SourceModule) : Except Failure (Option String × Stub) := do
  let current ← readIfThere t (job.targetPath m)
  return (current, ← job.existingStub t current (job.stubPath m))

theorem found_eq_ok {current : Option String} {existing : Stub} :
    job.found t m = .ok (current, existing) ↔ readIfThere t (job.targetPath m) = .ok current ∧
      job.existingStub t current (job.stubPath m) = .ok existing := by
  rw [found]
  cases hread : readIfThere t (job.targetPath m) with
  | error failure => simp [bind, Except.bind]
  | ok current' =>
    simp only [bind, Except.bind, Except.ok.injEq]
    cases hexisting : job.existingStub t current' (job.stubPath m) with
    | error failure =>
      simp only [reduceCtorEq, false_iff, not_and]
      rintro rfl
      simp [hexisting]
    | ok existing' =>
      simp only [pure, Except.pure, Except.ok.injEq, Prod.mk.injEq]
      refine and_congr_right ?_
      rintro rfl
      simp [hexisting]

theorem read_of_readIfThere {path text : String} (h : readIfThere t path = .ok (some text)) :
    t.read path = .ok text := by
  unfold readIfThere at h
  split at h
  · next text' hread => rw [hread, Option.some.inj (Except.ok.inj h)]
  · cases h
  · cases h

/-- What is reported of a module whose stub was made. -/
def entryOf (job : Job) (m : SourceModule) (status : Status) (tally : Tally) : ReportEntry :=
  ⟨some m.name, m.path, some (job.stubPath m), status, tally⟩

/-! ## Storing a stub -/

/-- How a text is stored. -/
inductive Stores (t : FileTree) (path text : String) : Except Failure Unit → FileTree → Prop where
  /-- It is not; directories may have been made. -/
  | failed {failure : Failure} {t' : FileTree} (h : Makes t t') :
    Stores t path text (.error failure) t'
  /-- It is written where nothing or a file stood. -/
  | stored {made : FileTree} {place : Location} (h : Makes t made)
      (hplace : made.locate path = .ok place) (hfile : made.at? place ≠ some .directory) :
    Stores t path text (.ok ()) (made.put place (.file text.toUTF8))

theorem run_store (path text : String) (t : FileTree) :
    (store path text).run.run t = match t.ensureDirectories (Path.parent path) with
      | (.error problem, made) => (.error (.file (Path.parent path) problem), made)
      | (.ok (), made) =>
        match made.writeFile path text.toUTF8 with
        | .error problem => (.error (.file path problem), made)
        | .ok written => (.ok (), written) := by
  simp only [store, OnFiles.run_bind, OnFiles.run_get, OnFiles.run_set]
  generalize t.ensureDirectories (Path.parent path) = result
  obtain ⟨outcome, made⟩ := result
  cases outcome with
  | error problem => rfl
  | ok _ =>
    simp only
    cases made.writeFile path text.toUTF8 <;> rfl

theorem stores_store (t : FileTree) (path text : String) :
    Stores t path text ((store path text).run.run t).1 ((store path text).run.run t).2 := by
  have hmade := FileTree.makes_ensureDirectories t (Path.parent path)
  rw [run_store]
  generalize t.ensureDirectories (Path.parent path) = result at hmade ⊢
  obtain ⟨outcome, made⟩ := result
  cases outcome with
  | error problem => exact .failed hmade
  | ok _ =>
    simp only
    cases hwrite : made.writeFile path text.toUTF8 with
    | error problem => exact .failed hmade
    | ok written =>
      obtain ⟨place, hplace, hfile, rfl⟩ := FileTree.writeFile_eq_ok hwrite
      exact .stored hmade hplace hfile

/-! ## One turn -/

/-- How the turn of a module ends. -/
inductive Turn (job : Job) (index : SourceIndex) (t : FileTree) (m : SourceModule) :
    Except Failure ReportEntry → FileTree → Prop where
  /-- The run is aborted: there is a stub whose indentation cannot be cut. -/
  | aborted (h : job.found t m = .error (.stub .splitBlank)) :
    Turn job index t m (.error (.stub .splitBlank)) t
  /-- What there is of the stub cannot be used. -/
  | unusable {failure : Failure} (h : job.found t m = .error failure) :
    Turn job index t m (.ok (.skipped m.path (some m.name) (.failed failure))) t
  /-- The stub is there already. -/
  | unchanged {existing stub : Stub} {tally : Tally}
      (h : job.found t m = .ok (some stub.render, existing))
      (hbuild : buildStub job.settings index m existing = (stub, tally)) :
    Turn job index t m (.ok (job.entryOf m .unchanged tally)) t
  /-- The stub cannot be written; directories may have been made. -/
  | unwritten {current : Option String} {existing stub : Stub} {tally : Tally} {failure : Failure}
      {t' : FileTree} (h : job.found t m = .ok (current, existing))
      (hbuild : buildStub job.settings index m existing = (stub, tally)) (hmade : Makes t t') :
    Turn job index t m (.ok (job.entryOf m (.skipped (.failed failure)) tally)) t'
  /-- The stub is written. -/
  | written {current : Option String} {existing stub : Stub} {tally : Tally} {made : FileTree}
      {place : Location} (h : job.found t m = .ok (current, existing))
      (hbuild : buildStub job.settings index m existing = (stub, tally)) (hmade : Makes t made)
      (hplace : made.locate (job.targetPath m) = .ok place)
      (hfile : made.at? place ≠ some .directory) :
    Turn job index t m (.ok (job.entryOf m .written tally))
      (made.put place (.file stub.render.toUTF8))

/-- The course of a turn, by what is found of the stub. -/
theorem process_eq (job : Job) (index : SourceIndex) (m : SourceModule) (t : FileTree) :
    (job.process index m).run.run t = match job.found t m with
      | .error (.stub .splitBlank) => (.error (.stub .splitBlank), t)
      | .error failure => (.ok (.skipped m.path (some m.name) (.failed failure)), t)
      | .ok (current, existing) =>
        let (stub, tally) := buildStub job.settings index m existing
        if current = some stub.render then (.ok (job.entryOf m .unchanged tally), t)
        else match (store (job.targetPath m) stub.render).run.run t with
          | (.ok (), t') => (.ok (job.entryOf m .written tally), t')
          | (.error failure, t') => (.ok (job.entryOf m (.skipped (.failed failure)) tally), t') := by
  simp only [process, OnFiles.run_bind, OnFiles.run_get]
  split
  · next h =>
    have hfound : job.found t m = .error (.stub .splitBlank) := h
    rw [hfound]
    rfl
  · next failure hnot h =>
    have hfound : job.found t m = .error failure := h
    rw [hfound]
    split
    · next heq => exact absurd (Except.error.inj heq) hnot
    · next heq => rw [Except.error.inj heq]; rfl
    · next heq => cases heq
  · next current existing h =>
    have hfound : job.found t m = .ok (current, existing) := h
    rw [hfound]
    dsimp only
    rcases buildStub job.settings index m existing with ⟨stub, tally⟩
    simp only [OnFiles.run_bind, OnFiles.run_liftM]
    unfold settle
    by_cases hcurrent : current = some stub.render
    · rw [if_pos hcurrent, if_pos hcurrent]
      rfl
    · rw [if_neg hcurrent, if_neg hcurrent]
      simp only [StateT.run_bind, targetPath]
      generalize (store (Path.append job.destination (job.stubPath m)) stub.render).run.run t = result
      obtain ⟨outcome, t'⟩ := result
      cases outcome <;> rfl

theorem turn_process (job : Job) (index : SourceIndex) (t : FileTree) (m : SourceModule) :
    Turn job index t m ((job.process index m).run.run t).1 ((job.process index m).run.run t).2 := by
  rw [process_eq]
  split
  · next h => exact .aborted h
  · next h => exact .unusable h
  · next current existing h =>
    rcases hbuild : buildStub job.settings index m existing with ⟨stub, tally⟩
    simp only
    by_cases hcurrent : current = some stub.render
    · subst hcurrent
      rw [if_pos rfl]
      exact .unchanged h hbuild
    · rw [if_neg hcurrent]
      have hstores := stores_store t (job.targetPath m) stub.render
      generalize (store (job.targetPath m) stub.render).run.run t = result at hstores ⊢
      obtain ⟨outcome, t'⟩ := result
      cases hstores with
      | failed hmade => exact .unwritten h hbuild hmade
      | stored hmade hplace hfile => exact .written h hbuild hmade hplace hfile

/-- Where the stub of a source file stands. -/
def stubPlace (job : Job) (destination : Location) (source : String) : Location :=
  destination ++ job.stubNames source

theorem locate_targetPath (hdest : t.locate job.destination = .ok destination)
    (hnames : ∀ name ∈ job.stubNames m.path, Path.IsName name) :
    t.locate (job.targetPath m) = t.walk destination (job.stubNames m.path) := by
  rw [targetPath, stubPath_eq, FileTree.locate_append hdest (stubNames_ne_nil job m.path) hnames]

theorem place_of_locate {place : Location} (hdest : t.locate job.destination = .ok destination)
    (hnames : ∀ name ∈ job.stubNames m.path, Path.IsName name)
    (h : t.locate (job.targetPath m) = .ok place) : place = job.stubPlace destination m.path := by
  rw [locate_targetPath hdest hnames] at h
  exact FileTree.walk_names hnames h

/-- A turn changes no file but the stub of its module, if that is reported as written. -/
theorem Turn.alters {outcome : Except Failure ReportEntry} (h : Turn job index t m outcome t')
    (hdest : t.locate job.destination = .ok destination)
    (hnames : ∀ name ∈ job.stubNames m.path, Path.IsName name) :
    Alters (fun place => (∃ tally, outcome = .ok (job.entryOf m .written tally)) ∧
      place = job.stubPlace destination m.path) t t' := by
  cases h with
  | aborted | unusable | unchanged => exact .refl _ t
  | unwritten _ _ hmade => exact hmade.alters _
  | @written _ _ _ tally made place _ _ hmade hplace hfile =>
    refine (hmade.alters _).trans ((FileTree.alters_put_file hfile).mono ?_)
    rintro _ rfl
    have hdest' := (hmade.alters fun _ => False).locate hdest
    exact ⟨⟨tally, rfl⟩, place_of_locate hdest' hnames hplace⟩

/-- An entry names the source file of its module. -/
theorem Turn.source {e : ReportEntry} (h : Turn job index t m (.ok e) t') : e.source = m.path := by
  cases h <;> rfl

/-- How the turns of modules end: the entries that were made, and the failure that ended them. -/
inductive Turns (job : Job) (index : SourceIndex) : FileTree → List SourceModule →
    List ReportEntry → Option Failure → FileTree → Prop where
  /-- No turn is left. -/
  | done {t : FileTree} : Turns job index t [] [] none t
  /-- A turn makes no entry. -/
  | stopped {t t' : FileTree} {m : SourceModule} {ms : List SourceModule} {failure : Failure}
      (h : Turn job index t m (.error failure) t') :
    Turns job index t (m :: ms) [] (some failure) t'
  /-- A turn makes an entry. -/
  | next {t t' t'' : FileTree} {m : SourceModule} {ms : List SourceModule} {e : ReportEntry}
      {es : List ReportEntry} {ending : Option Failure} (h : Turn job index t m (.ok e) t')
      (hrest : Turns job index t' ms es ending t'') :
    Turns job index t (m :: ms) (e :: es) ending t''

variable {ms : List SourceModule} {es : List ReportEntry} {ending : Option Failure}

theorem turns_mapM (job : Job) (index : SourceIndex) (t : FileTree) (ms : List SourceModule) :
    ∃ es ending, Turns job index t ms es ending ((ms.mapM (job.process index)).run.run t).2 ∧
      ((ms.mapM (job.process index)).run.run t).1 = match ending with
        | none => .ok es
        | some failure => .error failure := by
  induction ms generalizing t with
  | nil => exact ⟨[], none, .done, rfl⟩
  | cons m ms ih =>
    have hturn := turn_process job index t m
    rw [List.mapM_cons, OnFiles.run_bind]
    generalize (job.process index m).run.run t = result at hturn ⊢
    obtain ⟨outcome, t'⟩ := result
    cases outcome with
    | error failure => exact ⟨[], some failure, .stopped hturn, rfl⟩
    | ok e =>
      obtain ⟨es, ending, hrest, houtcome⟩ := ih t'
      simp only [OnFiles.run_bind]
      generalize (ms.mapM (job.process index)).run.run t' = result at hrest houtcome ⊢
      obtain ⟨outcome, t''⟩ := result
      obtain rfl := houtcome
      refine ⟨e :: es, ending, ?_⟩
      cases ending with
      | none => exact ⟨.next hturn hrest, rfl⟩
      | some failure => exact ⟨.next hturn hrest, rfl⟩

theorem Turns.sources (h : Turns job index t ms es none t') :
    es.map (·.source) = ms.map (·.path) := by
  generalize hending : (none : Option Failure) = ending at h
  induction h with
  | done => rfl
  | stopped => cases hending
  | next hturn _ ih => rw [List.map_cons, List.map_cons, hturn.source, ih hending]

/-- Turns change no files but the stubs that are reported as written. -/
theorem Turns.alters (h : Turns job index t ms es ending t')
    (hdest : t.locate job.destination = .ok destination)
    (hnames : ∀ m ∈ ms, ∀ name ∈ job.stubNames m.path, Path.IsName name) :
    Alters (fun place => ∃ e ∈ es, e.status = .written ∧ place = job.stubPlace destination e.source)
      t t' := by
  induction h with
  | done => exact .refl _ _
  | stopped hturn =>
    refine (hturn.alters hdest (hnames _ List.mem_cons_self)).mono ?_
    rintro place ⟨⟨tally, htally⟩, -⟩
    cases htally
  | @next t t' t'' m ms e es ending hturn _ ih =>
    have hfirst := hturn.alters hdest (hnames _ List.mem_cons_self)
    have hrest := ih (hfirst.locate hdest) fun m hm => hnames m (List.mem_cons_of_mem _ hm)
    refine (hfirst.mono ?_).trans (hrest.mono ?_)
    · rintro place ⟨⟨tally, htally⟩, rfl⟩
      obtain rfl := Except.ok.inj htally
      exact ⟨_, List.mem_cons_self, rfl, rfl⟩
    · rintro place ⟨e', he', hwritten, hplace⟩
      exact ⟨e', List.mem_cons_of_mem e he', hwritten, hplace⟩

/-- Every entry comes from a turn, with turns before it and after it. -/
theorem Turns.split {e : ReportEntry} (h : Turns job index t ms es ending t') (he : e ∈ es) :
    ∃ before m after es₁ es₂ now next, ms = before ++ m :: after ∧ es = es₁ ++ e :: es₂ ∧
      Turns job index t before es₁ none now ∧ Turn job index now m (.ok e) next ∧
      Turns job index next after es₂ ending t' := by
  induction h with
  | done => cases he
  | stopped => cases he
  | @next t t' t'' m ms e' es ending hturn hrest ih =>
    rcases List.mem_cons.1 he with rfl | he
    · exact ⟨[], m, ms, [], es, t, t', rfl, rfl, .done, hturn, hrest⟩
    · obtain ⟨before, m', after, es₁, es₂, now, next, rfl, rfl, hbefore, hturn', hafter⟩ := ih he
      exact ⟨m :: before, m', after, e' :: es₁, es₂, now, next, rfl, rfl, .next hturn hbefore, hturn',
        hafter⟩

end Job
end TypedStubs
