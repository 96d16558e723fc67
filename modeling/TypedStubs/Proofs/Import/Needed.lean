import TypedStubs.Import.Needed

/-! # What the needed imports are

The needed ones of some imports are decided from the first to the last, and what is decided for one depends
on the imports that were met and on the names that are bound.  `keepNeeded_step` says all that can become of
one import, and each fact about the needed ones follows from it by induction: they keep their order, nothing
that has to stay is lost, the first import that binds a mentioned name stays the first, and what is needed is
needed still when only the needed ones are left (`needed_exact`).
-/
namespace TypedStubs.Import

variable {used bound : List String} {seen : List Import} {name : String}

/-- Whether some import binds a name. -/
def Binds (imports : List Import) (name : String) : Prop := ∃ i ∈ imports, i.bound? = some name

theorem Binds.append_left {imports : List Import} (h : Binds imports name) (more : List Import) :
    Binds (imports ++ more) name := by
  obtain ⟨i, hi, hname⟩ := h
  exact ⟨i, List.mem_append_left _ hi, hname⟩

theorem Binds.append_right {more : List Import} (imports : List Import) (h : Binds more name) :
    Binds (imports ++ more) name := by
  obtain ⟨i, hi, hname⟩ := h
  exact ⟨i, List.mem_append_right _ hi, hname⟩

/-- An import is looked for by the name that it binds. -/
theorem binds_iff_find? {imports : List Import} :
    Binds imports name ↔ (imports.find? (·.bound? == some name)).isSome = true := by
  simp [Binds, List.find?_isSome]

/-- Whether an import stays only if a text mentions the name it binds: it is no star import, turns on no
feature, and is not there to be imported again. -/
def isPlain (i : Import) : Bool := !i.isStar && !i.isRequired

theorem bound?_eq_none_iff {i : Import} : i.bound? = none ↔ i.isStar = true := by
  rcases i with ⟨path, _ | _⟩ | ⟨source, name, _ | _⟩ | source <;> simp [bound?, isStar]

theorem isStar_of_bound? {i : Import} (hname : i.bound? = some name) : ¬ i.isStar = true := by
  rw [← bound?_eq_none_iff, hname]
  exact Option.some_ne_none _

theorem isPlain_of_bound? {i : Import} (hname : i.bound? = some name) :
    i.isPlain = !i.isRequired := by
  simp [isPlain, isStar_of_bound? hname]

/-! ### One import after the other -/

/-- What becomes of an import when those in `seen` were met and the names in `bound` are bound; `stay` is what
stays of it and of those behind it. -/
inductive Step (used : List String) (seen : List Import) (bound : List String) (i : Import)
    (rest stay : List Import) : Prop
  /-- Nobody knows what it binds. -/
  | star (hname : i.bound? = none) (hstay : stay = i :: keepNeeded used seen bound rest)
  /-- It was met, or it may go and nothing mentions its name, or the name is bound. -/
  | dropped (name : String) (hname : i.bound? = some name)
      (hwhy : i ∈ seen ∨ i.isRequired = false ∧ (name ∉ used ∨ name ∈ bound)) (met : List Import)
      (hmet : ∀ j, j ∈ met ↔ j = i ∨ j ∈ seen) (hstay : stay = keepNeeded used met bound rest)
  /-- It is new, and it has to stay or is the first to bind a mentioned name. -/
  | kept (name : String) (hname : i.bound? = some name) (hnew : i ∉ seen)
      (hwhy : i.isRequired = true ∨ name ∈ used ∧ name ∉ bound)
      (hstay : stay = i :: keepNeeded used (i :: seen) (name :: bound) rest)

theorem keepNeeded_kept {i : Import} (hname : i.bound? = some name) (hnew : i ∉ seen)
    (hwhy : i.isRequired = true ∨ name ∈ used ∧ name ∉ bound) (rest : List Import) :
    keepNeeded used seen bound (i :: rest) =
      i :: keepNeeded used (i :: seen) (name :: bound) rest := by
  rcases hwhy with hrequired | ⟨hused, hbound⟩
  · simp [keepNeeded, hname, hnew, hrequired]
  · simp [keepNeeded, hname, hnew, hused, hbound]

theorem keepNeeded_step (used : List String) (seen : List Import) (bound : List String) (i : Import)
    (rest : List Import) :
    Step used seen bound i rest (keepNeeded used seen bound (i :: rest)) := by
  cases hname : i.bound? with
  | none => exact .star hname (by rw [keepNeeded, hname])
  | some name =>
    by_cases hseen : i ∈ seen
    · have hmet : ∀ j, j ∈ seen ↔ j = i ∨ j ∈ seen := by grind
      exact .dropped name hname (.inl hseen) seen hmet (by simp [keepNeeded, hname, hseen])
    · have hmet : ∀ j, j ∈ i :: seen ↔ j = i ∨ j ∈ seen := fun _ => List.mem_cons
      by_cases hrequired : i.isRequired = true
      · exact .kept name hname hseen (.inl hrequired) (keepNeeded_kept hname hseen (.inl hrequired) rest)
      · rw [Bool.not_eq_true] at hrequired
        by_cases hused : name ∈ used
        · by_cases hbound : name ∈ bound
          · exact .dropped name hname (.inr ⟨hrequired, .inr hbound⟩) _ hmet
              (by simp [keepNeeded, hname, hseen, hrequired, hused, hbound])
          · exact .kept name hname hseen (.inr ⟨hused, hbound⟩)
              (keepNeeded_kept hname hseen (.inr ⟨hused, hbound⟩) rest)
        · exact .dropped name hname (.inr ⟨hrequired, .inl hused⟩) _ hmet
            (by simp [keepNeeded, hname, hseen, hrequired, hused])

/-- The needed imports keep their order. -/
theorem keepNeeded_sublist (used : List String) (seen : List Import) (bound : List String)
    (imports : List Import) : (keepNeeded used seen bound imports).Sublist imports := by
  induction imports generalizing seen bound with
  | nil => exact List.Sublist.slnil
  | cons i rest ih =>
    cases keepNeeded_step used seen bound i rest with
    | star hname hstay => exact hstay ▸ (ih seen bound).cons_cons i
    | dropped name hname hwhy met hmet hstay => exact hstay ▸ (ih met bound).cons i
    | kept name hname hnew hwhy hstay => exact hstay ▸ (ih _ _).cons_cons i

/-- Star imports stay as often as they are there. -/
theorem count_keepNeeded_of_isStar {i : Import} (hstar : i.isStar = true) (imports : List Import) :
    (keepNeeded used seen bound imports).count i = imports.count i := by
  rw [← bound?_eq_none_iff] at hstar
  induction imports generalizing seen bound with
  | nil => rfl
  | cons j rest ih =>
    cases keepNeeded_step used seen bound j rest with
    | star hname hstay => rw [hstay, List.count_cons, List.count_cons, ih]
    | dropped name hname hwhy met hmet hstay =>
      have hne : j ≠ i := by rintro rfl; simp [hstar] at hname
      rw [hstay, ih, List.count_cons_of_ne hne]
    | kept name hname hnew hwhy hstay =>
      have hne : j ≠ i := by rintro rfl; simp [hstar] at hname
      rw [hstay, List.count_cons_of_ne hne, List.count_cons_of_ne hne, ih]

/-- An import that has to stay does so once, where it is met first. -/
theorem count_keepNeeded_of_isRequired {i : Import} (hrequired : i.isRequired = true)
    (hstar : i.isStar = false) (imports : List Import) :
    (keepNeeded used seen bound imports).count i = if i ∈ imports ∧ i ∉ seen then 1 else 0 := by
  induction imports generalizing seen bound with
  | nil => simp [keepNeeded]
  | cons j rest ih =>
    cases keepNeeded_step used seen bound j rest with
    | star hname hstay =>
      have hne : j ≠ i := by rintro rfl; simp [bound?_eq_none_iff.1 hname] at hstar
      rw [hstay, List.count_cons_of_ne hne, ih]
      simp [hne.symm]
    | dropped name hname hwhy met hmet hstay =>
      rw [hstay, ih]
      by_cases hne : j = i
      · subst hne
        -- what has to stay is dropped for one reason only
        have hseen : j ∈ seen := by simpa [hrequired] using hwhy
        simp [hmet, hseen]
      · simp [hmet, Ne.symm hne]
    | kept name hname hnew hwhy hstay =>
      rw [hstay]
      by_cases hne : j = i
      · subst hne
        rw [List.count_cons_self, ih]
        simp [hnew]
      · rw [List.count_cons_of_ne hne, ih]
        simp [Ne.symm hne]

/-- The first import that binds a mentioned name stays the first, if the name was not bound before. -/
theorem find?_keepNeeded (hused : name ∈ used) {seen : List Import}
    (hseen : ∀ i ∈ seen, i.bound? ≠ some name) (hbound : name ∉ bound) (imports : List Import) :
    (keepNeeded used seen bound imports).find? (·.bound? == some name) =
      imports.find? (·.bound? == some name) := by
  induction imports generalizing seen bound with
  | nil => rfl
  | cons i rest ih =>
    cases keepNeeded_step used seen bound i rest with
    | star hname hstay =>
      rw [hstay, List.find?_cons, List.find?_cons, ih hseen hbound]
    | dropped other hname hwhy met hmet hstay =>
      have hne : other ≠ name := by
        -- an import that binds the name is new, its name is mentioned, and nothing binds it yet
        rintro rfl
        rcases hwhy with hi | ⟨-, hunused | hi⟩
        · exact hseen i hi hname
        · exact hunused hused
        · exact hbound hi
      have hi : i.bound? ≠ some name := by simpa [hname] using hne
      have hmet' : ∀ j ∈ met, j.bound? ≠ some name := fun j hj =>
        ((hmet j).1 hj).elim (fun h => h ▸ hi) (hseen j)
      rw [hstay, ih hmet' hbound, List.find?_cons_of_neg (by simpa using hi)]
    | kept other hname hnew hwhy hstay =>
      rw [hstay, List.find?_cons, List.find?_cons]
      by_cases hne : other = name
      · simp [hname, hne]
      · have hi : i.bound? ≠ some name := by simpa [hname] using hne
        have hmet : ∀ j ∈ i :: seen, j.bound? ≠ some name := List.forall_mem_cons.2 ⟨hi, hseen⟩
        rw [ih hmet (by simpa using ⟨Ne.symm hne, hbound⟩)]

/-- **A mentioned name that some import binds stays bound.** -/
theorem needed_binds {imports : List Import} (hused : name ∈ used) (h : Binds imports name) :
    Binds (needed used imports) name := by
  rw [binds_iff_find?] at h ⊢
  rwa [needed, find?_keepNeeded hused (fun _ h => absurd h List.not_mem_nil) List.not_mem_nil]

/-- A plain import that stays binds a mentioned name that was not bound before. -/
theorem bound?_of_mem_keepNeeded {i : Import} (hplain : i.isPlain = true) {imports : List Import}
    (hi : i ∈ keepNeeded used seen bound imports) :
    ∃ name ∈ used, i.bound? = some name ∧ name ∉ bound := by
  induction imports generalizing seen bound with
  | nil => cases hi
  | cons j rest ih =>
    cases keepNeeded_step used seen bound j rest with
    | star hname hstay =>
      rcases List.mem_cons.1 (hstay ▸ hi) with rfl | hi
      · simp [isPlain, bound?_eq_none_iff.1 hname] at hplain
      · exact ih hi
    | dropped name hname hwhy met hmet hstay => exact ih (hstay ▸ hi)
    | kept name hname hnew hwhy hstay =>
      rcases List.mem_cons.1 (hstay ▸ hi) with rfl | hi
      · rw [isPlain_of_bound? hname] at hplain
        obtain ⟨hused, hbound⟩ := hwhy.resolve_left (by simpa using hplain)
        exact ⟨name, hused, hname, hbound⟩
      · obtain ⟨other, hused, hother, hbound⟩ := ih hi
        exact ⟨other, hused, hother, fun h => hbound (List.mem_cons_of_mem _ h)⟩

/-- Plain imports that stay bind different names. -/
theorem pairwise_keepNeeded (used : List String) (seen : List Import) (bound : List String)
    (imports : List Import) :
    ((keepNeeded used seen bound imports).filter isPlain).Pairwise
      fun i j => i.bound? ≠ j.bound? := by
  induction imports generalizing seen bound with
  | nil => exact List.Pairwise.nil
  | cons i rest ih =>
    cases keepNeeded_step used seen bound i rest with
    | star hname hstay =>
      have hplain : ¬ i.isPlain = true := by simp [isPlain, bound?_eq_none_iff.1 hname]
      rw [hstay, List.filter_cons_of_neg hplain]
      exact ih seen bound
    | dropped name hname hwhy met hmet hstay => exact hstay ▸ ih met bound
    | kept name hname hnew hwhy hstay =>
      rw [hstay]
      -- behind a plain import its name is bound, so no plain one that stays binds it
      by_cases hplain : i.isPlain = true
      · rw [List.filter_cons_of_pos hplain]
        refine List.pairwise_cons.2 ⟨fun j hj => ?_, ih _ _⟩
        obtain ⟨hmem, hj⟩ := List.mem_filter.1 hj
        obtain ⟨other, -, hother, hbound⟩ := bound?_of_mem_keepNeeded hj hmem
        rw [hname, hother]
        rintro ⟨rfl⟩
        exact hbound List.mem_cons_self
      · rw [List.filter_cons_of_neg hplain]
        exact ih _ _

/-- A plain import that stays is the first that binds its name. -/
theorem find?_of_mem_keepNeeded {i : Import} (hplain : i.isPlain = true) (hname : i.bound? = some name)
    {imports : List Import} (hi : i ∈ keepNeeded used seen bound imports) :
    (keepNeeded used seen bound imports).find? (·.bound? == some name) = some i := by
  induction imports generalizing seen bound with
  | nil => cases hi
  | cons j rest ih =>
    cases keepNeeded_step used seen bound j rest with
    | star hstar hstay =>
      rw [hstay] at hi ⊢
      have hne : i ≠ j := by rintro rfl; simp [hstar] at hname
      rw [List.find?_cons_of_neg (by simp [hstar])]
      exact ih ((List.mem_cons.1 hi).resolve_left hne)
    | dropped other hother hwhy met hmet hstay => exact hstay ▸ ih (hstay ▸ hi)
    | kept other hother hnew hwhy hstay =>
      rw [hstay] at hi ⊢
      rcases List.mem_cons.1 hi with rfl | hi
      · exact List.find?_cons_of_pos (by simp [hname])
      · -- behind an import that stays its name is bound
        obtain ⟨name', -, hname', hbound⟩ := bound?_of_mem_keepNeeded hplain hi
        obtain rfl : name' = name := Option.some.inj (hname'.symm.trans hname)
        have hne : other ≠ name' := fun heq => hbound (heq ▸ List.mem_cons_self)
        rw [List.find?_cons_of_neg (by simpa [hother] using hne)]
        exact ih hi

/-- Star imports stay as they are among themselves. -/
theorem filter_isStar_keepNeeded (used : List String) (seen : List Import) (bound : List String)
    (imports : List Import) :
    (keepNeeded used seen bound imports).filter isStar = imports.filter isStar := by
  induction imports generalizing seen bound with
  | nil => rfl
  | cons i rest ih =>
    cases keepNeeded_step used seen bound i rest with
    | star hname hstay =>
      have hstar := bound?_eq_none_iff.1 hname
      rw [hstay, List.filter_cons_of_pos hstar, List.filter_cons_of_pos hstar, ih]
    | dropped name hname hwhy met hmet hstay =>
      rw [hstay, ih, List.filter_cons_of_neg (isStar_of_bound? hname)]
    | kept name hname hnew hwhy hstay =>
      have hnot := isStar_of_bound? hname
      rw [hstay, List.filter_cons_of_neg hnot, List.filter_cons_of_neg hnot, ih]

/-- What is no plain import is never lost. -/
theorem mem_needed_iff {i : Import} (hplain : i.isPlain = false) (imports : List Import) :
    i ∈ needed used imports ↔ i ∈ imports := by
  refine ⟨fun hi => (keepNeeded_sublist used [] [] imports).mem hi, fun hi => ?_⟩
  rw [← List.count_pos_iff, needed]
  cases hstar : i.isStar with
  | true => rwa [count_keepNeeded_of_isStar hstar, List.count_pos_iff]
  | false =>
    have hrequired : i.isRequired = true := by simpa [isPlain, hstar] using hplain
    rw [count_keepNeeded_of_isRequired hrequired hstar, if_pos ⟨hi, List.not_mem_nil⟩]
    exact Nat.one_pos

/-! ### Imports behind others -/

theorem keepNeeded_dropped {i : Import} (hname : i.bound? = some name)
    (hwhy : i ∈ seen ∨ i.isRequired = false ∧ (name ∉ used ∨ name ∈ bound)) (rest : List Import) :
    keepNeeded used seen bound (i :: rest) =
      keepNeeded used (if i ∈ seen then seen else i :: seen) bound rest := by
  by_cases hseen : i ∈ seen
  · simp [keepNeeded, hname, hseen]
  · obtain ⟨hrequired, hused | hbound⟩ := hwhy.resolve_left hseen
    · simp [keepNeeded, hname, hseen, hrequired, hused]
    · simp [keepNeeded, hname, hseen, hrequired, hbound]

/-- Imports behind others are decided on what those leave behind: the more that was met and is bound, and
among it what stays of them. -/
theorem keepNeeded_append (used : List String) (seen : List Import) (bound : List String)
    (imports more : List Import) :
    ∃ met names, keepNeeded used seen bound (imports ++ more) =
        keepNeeded used seen bound imports ++ keepNeeded used met names more ∧
      (∀ i ∈ seen, i ∈ met) ∧ (∀ n ∈ bound, n ∈ names) ∧
      ∀ i ∈ keepNeeded used seen bound imports, ∀ name, i.bound? = some name → i ∈ met ∧ name ∈ names := by
  induction imports generalizing seen bound with
  | nil => exact ⟨seen, bound, rfl, fun _ h => h, fun _ h => h, fun _ h => absurd h List.not_mem_nil⟩
  | cons i rest ih =>
    cases hname : i.bound? with
    | none =>
      obtain ⟨met, names, heq, hmet, hnames, hstay⟩ := ih seen bound
      have hkept : ∀ ys, keepNeeded used seen bound (i :: ys) = i :: keepNeeded used seen bound ys :=
        fun ys => by rw [keepNeeded, hname]
      refine ⟨met, names, by rw [List.cons_append, hkept, hkept, heq, List.cons_append], hmet, hnames, ?_⟩
      rw [hkept]
      exact List.forall_mem_cons.2 ⟨fun name hi => by simp [hname] at hi, hstay⟩
    | some name =>
      by_cases hwhy : i ∈ seen ∨ i.isRequired = false ∧ (name ∉ used ∨ name ∈ bound)
      · obtain ⟨met, names, heq, hmet, hnames, hstay⟩ := ih (if i ∈ seen then seen else i :: seen) bound
        have hdropped := @keepNeeded_dropped used bound seen name i hname hwhy
        refine ⟨met, names, by rw [List.cons_append, hdropped, hdropped, heq], fun j hj => hmet j ?_, hnames,
          by rwa [hdropped]⟩
        split
        · exact hj
        · exact List.mem_cons_of_mem i hj
      · obtain ⟨hnew, hstays⟩ := not_or.1 hwhy
        have hwhy' : i.isRequired = true ∨ name ∈ used ∧ name ∉ bound := by
          by_cases hrequired : i.isRequired = true
          · exact .inl hrequired
          · exact .inr (by simpa [hrequired] using hstays)
        obtain ⟨met, names, heq, hmet, hnames, hstay⟩ := ih (i :: seen) (name :: bound)
        have hkept := @keepNeeded_kept used bound seen name i hname hnew hwhy'
        refine ⟨met, names, by rw [List.cons_append, hkept, hkept, heq, List.cons_append],
          fun j hj => hmet j (List.mem_cons_of_mem i hj),
          fun n hn => hnames n (List.mem_cons_of_mem name hn), ?_⟩
        rw [hkept]
        refine List.forall_mem_cons.2 ⟨fun other hother => ?_, hstay⟩
        obtain rfl := Option.some.inj (hname.symm.trans hother)
        exact ⟨hmet i List.mem_cons_self, hnames name List.mem_cons_self⟩

/-- Of imports that were met, or may go because their names are bound, only star imports stay. -/
theorem keepNeeded_of_known {imports : List Import}
    (h : ∀ i ∈ imports, ∀ name, i.bound? = some name → i ∈ seen ∨ i.isRequired = false ∧ name ∈ bound) :
    keepNeeded used seen bound imports = imports.filter isStar := by
  induction imports generalizing seen bound with
  | nil => rfl
  | cons i rest ih =>
    obtain ⟨hi, hrest⟩ := List.forall_mem_cons.1 h
    cases keepNeeded_step used seen bound i rest with
    | star hname hstay =>
      rw [hstay, ih hrest, List.filter_cons_of_pos (bound?_eq_none_iff.1 hname)]
    | dropped name hname hwhy met hmet hstay =>
      have hknown : ∀ j ∈ rest, ∀ other, j.bound? = some other →
          j ∈ met ∨ j.isRequired = false ∧ other ∈ bound := fun j hj other hother =>
        (hrest j hj other hother).imp_left fun hseen => (hmet j).2 (.inr hseen)
      rw [hstay, ih hknown, List.filter_cons_of_neg (isStar_of_bound? hname)]
    | kept name hname hnew hwhy hstay =>
      -- what is known is not kept
      obtain ⟨hrequired, hbound⟩ := (hi name hname).resolve_left hnew
      rcases hwhy with h | h
      · exact absurd hrequired (by simp [h])
      · exact absurd hbound h.2

/-- Of imports behind needed ones that are among these, or may go because their names are bound there, only
star imports are needed. -/
theorem needed_append_of_known {imports more : List Import} (hneeded : needed used imports = imports)
    (h : ∀ i ∈ more, ∀ name, i.bound? = some name →
      i ∈ imports ∨ i.isRequired = false ∧ Binds imports name) :
    needed used (imports ++ more) = imports ++ more.filter isStar := by
  obtain ⟨met, names, heq, -, -, hstay⟩ := keepNeeded_append used [] [] imports more
  rw [← needed, ← needed, hneeded] at heq
  rw [← needed, hneeded] at hstay
  rw [heq, keepNeeded_of_known fun i hi name hname => ?_]
  rcases h i hi name hname with hmem | ⟨hrequired, j, hj, hjname⟩
  · exact .inl (hstay i hmem name hname).1
  · exact .inr ⟨hrequired, (hstay j hj name hjname).2⟩

/-- What stays is needed again, also by those who met fewer imports and bound fewer names. -/
theorem keepNeeded_again {seen met : List Import} {bound names : List String}
    (hmet : ∀ i ∈ met, i ∈ seen) (hnames : ∀ n ∈ names, n ∈ bound) (imports : List Import) :
    keepNeeded used met names (keepNeeded used seen bound imports) =
      keepNeeded used seen bound imports := by
  induction imports generalizing seen met bound names with
  | nil => rfl
  | cons i rest ih =>
    cases keepNeeded_step used seen bound i rest with
    | star hname hstay =>
      rw [hstay, keepNeeded, hname]
      exact congrArg (i :: ·) (ih hmet hnames)
    | dropped name hname hwhy more hmore hstay =>
      rw [hstay]
      exact ih (fun j hj => (hmore j).2 (.inr (hmet j hj))) hnames
    | kept name hname hnew hwhy hstay =>
      -- the reasons to keep `i` hold for those who met and bound less
      have hnew' : i ∉ met := fun h => hnew (hmet i h)
      have hwhy' : i.isRequired = true ∨ name ∈ used ∧ name ∉ names :=
        hwhy.imp_right fun h => ⟨h.1, fun hn => h.2 (hnames name hn)⟩
      rw [hstay, keepNeeded_kept hname hnew' hwhy']
      refine congrArg (i :: ·) (ih ?_ ?_)
      · exact fun j hj => List.mem_cons.2 ((List.mem_cons.1 hj).imp_right (hmet j))
      · exact fun n hn => List.mem_cons.2 ((List.mem_cons.1 hn).imp_right (hnames n))

theorem keepNeeded_eq_self {imports : List Import}
    (hkeep : ∀ i ∈ imports, ∀ name, i.bound? = some name → i.isRequired = true ∨ name ∈ used)
    (hnew : ∀ i ∈ imports, ∀ name, i.bound? = some name → i ∉ seen ∧ name ∉ bound)
    (hapart : imports.Pairwise fun i j => ∀ name, i.bound? = some name → j.bound? ≠ some name) :
    keepNeeded used seen bound imports = imports := by
  induction imports generalizing seen bound with
  | nil => rfl
  | cons i rest ih =>
    obtain ⟨hi, hrest⟩ := List.forall_mem_cons.1 hkeep
    obtain ⟨hinew, hrestnew⟩ := List.forall_mem_cons.1 hnew
    obtain ⟨hiapart, hapart⟩ := List.pairwise_cons.1 hapart
    cases hname : i.bound? with
    | none => rw [keepNeeded, hname, ih hrest hrestnew hapart]
    | some name =>
      obtain ⟨hseen, hbound⟩ := hinew name hname
      rw [keepNeeded_kept hname hseen ((hi name hname).imp_right fun hused => ⟨hused, hbound⟩)]
      refine congrArg (i :: ·) (ih hrest (fun j hj other hother => ?_) hapart)
      have hne : other ≠ name := fun heq => hiapart j hj name hname (heq ▸ hother)
      have hji : j ≠ i := fun heq => hne (Option.some.inj (hother.symm.trans (heq ▸ hname)))
      obtain ⟨hjseen, hjbound⟩ := hrestnew j hj other hother
      exact ⟨by simp [hji, hjseen], by simp [hne, hjbound]⟩

/-- Imports are all needed that have to stay or bind a mentioned name, each a name of its own. -/
theorem needed_eq_self {imports : List Import}
    (hkeep : ∀ i ∈ imports, ∀ name, i.bound? = some name → i.isRequired = true ∨ name ∈ used)
    (hapart : imports.Pairwise fun i j => ∀ name, i.bound? = some name → j.bound? ≠ some name) :
    needed used imports = imports :=
  keepNeeded_eq_self hkeep (fun _ _ _ _ => ⟨List.not_mem_nil, List.not_mem_nil⟩) hapart

/-- Only star imports are needed more than once. -/
theorem count_needed_le_one {i : Import} (hstar : i.isStar = false) (imports : List Import) :
    (needed used imports).count i ≤ 1 := by
  cases hrequired : i.isRequired with
  | true =>
    rw [needed, count_keepNeeded_of_isRequired hrequired hstar]
    split <;> omega
  | false =>
    have hplain : i.isPlain = true := by simp [isPlain, hstar, hrequired]
    rw [← List.count_filter (l := needed used imports) hplain]
    refine List.nodup_iff_count.1 ?_ i
    exact (pairwise_keepNeeded used [] [] imports).imp fun {i j} hne heq => hne (congrArg bound? heq)

/-- **What is needed is what stays.**  The needed imports keep their order.  Star imports, which bind no name
that is known, stay as often as they are there; any other that turns on a feature or is there to be imported
again stays once.  The first import that binds a mentioned name is the first still.  The plain ones bind
different names, all of them mentioned.  And what is needed is needed still when nothing else is there. -/
theorem needed_exact (used : List String) (imports : List Import) :
    let kept := needed used imports
    kept.Sublist imports ∧
    (∀ i, i.isStar = true → kept.count i = imports.count i) ∧
    (∀ i ∈ imports, (i.isFuture || i.isReexport) = true → i.isStar = false → kept.count i = 1) ∧
    (∀ name ∈ used,
      kept.find? (·.bound? == some name) = imports.find? (·.bound? == some name)) ∧
    (kept.filter isPlain).Pairwise (fun i j => i.bound? ≠ j.bound?) ∧
    (∀ i ∈ kept, i.isPlain = true → ∃ name ∈ used, i.bound? = some name) ∧
    needed used kept = kept := by
  intro kept
  refine ⟨keepNeeded_sublist used [] [] imports, fun i hstar => count_keepNeeded_of_isStar hstar imports,
    fun i hi hrequired hstar => ?_, fun name hused => ?_, pairwise_keepNeeded used [] [] imports,
    fun i hi hplain => ?_, ?_⟩
  · rw [show kept = keepNeeded used [] [] imports from rfl,
      count_keepNeeded_of_isRequired hrequired hstar imports]
    exact if_pos ⟨hi, List.not_mem_nil⟩
  · exact find?_keepNeeded hused (fun _ h => absurd h List.not_mem_nil) List.not_mem_nil imports
  · obtain ⟨name, hused, hname, -⟩ := bound?_of_mem_keepNeeded hplain hi
    exact ⟨name, hused, hname⟩
  · exact keepNeeded_again (fun _ h => h) (fun _ h => h) imports

/-- Imports of every kind, most of them twice. -/
theorem needed_exact_colors :
    let feature : Import := .member "__future__" "annotations" none
    let reexport : Import := .member "colors" "Color" (some "Color")
    let everything : Import := .star "colors"
    let any : Import := .member "typing" "Any" none
    let other : Import := .member "other" "Any" none
    let imports := [feature, any, everything, other, reexport, feature, any, everything, reexport]
    let kept := needed ["Any"] imports
    kept = [feature, any, everything, reexport, everything] ∧
      everything.isStar = true ∧ kept.count everything = 2 ∧
      reexport ∈ imports ∧ reexport.isStar = false ∧ kept.count reexport = 1 ∧
      kept.find? (·.bound? == some "Any") = some any ∧
      (∃ name ∈ ["Any"], any.bound? = some name) ∧ needed ["Any"] kept = kept := by
  intro feature reexport everything any other imports kept
  have hkept : kept = [feature, any, everything, reexport, everything] := by decide +kernel
  have hmem : reexport ∈ imports := by decide +kernel
  have hany : any ∈ kept := by rw [hkept]; decide +kernel
  obtain ⟨-, hstars, hrequired, hfirst, -, hplain, hagain⟩ := needed_exact ["Any"] imports
  refine ⟨hkept, rfl, ?_, hmem, rfl, hrequired reexport hmem (by decide +kernel) rfl, ?_,
    hplain any hany (by decide +kernel), hagain⟩
  · rw [hstars everything rfl]
    decide +kernel
  · rw [hfirst "Any" (List.mem_singleton_self _)]
    decide +kernel

end TypedStubs.Import
