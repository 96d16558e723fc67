import Mathlib.Data.List.TakeWhile
import TypedStubs.Stub.Merge

/-! # What a merge does with one parameter

`MergesTo` lists what a merge may do with one generated parameter, and `mergesTo_mergeParam` says that
this is all.  Nothing is done with a parameter that the signature covers, by its name or, for a
catch-all, by its kind; any other one goes where its kind belongs.
-/
namespace TypedStubs

open Syntax (ParamKind)

variable {params more : List ParamText} {namedOnly : Bool} {p q : ParamText}

/-- Whether a parameter is one of the two markers. -/
def ParamText.isMarker (p : ParamText) : Bool :=
  p.kind == .positionalOnlyMarker || p.kind == .keywordOnlyMarker

/-- Whether markers have no name, as in every function that is read or written. -/
def MarkersUnnamed (params : List ParamText) : Prop := ∀ p ∈ params, p.isMarker = true → p.name = ""

instance (params : List ParamText) : Decidable (MarkersUnnamed params) :=
  inferInstanceAs (Decidable (∀ p ∈ params, p.isMarker = true → p.name = ""))

/-! ### Where a parameter goes -/

@[simp] theorem ParamText.withDots_name (p : ParamText) : p.withDots.name = p.name := rfl

@[simp] theorem ParamText.withDots_kind (p : ParamText) : p.withDots.kind = p.kind := rfl

/-- Parameters stay when one is put among them. -/
theorem sublist_insert {α : Type} (p : α → Bool) (xs : List α) (between : List α) :
    xs.Sublist (xs.takeWhile p ++ (between ++ xs.dropWhile p)) := by
  have h := (List.sublist_append_right between (xs.dropWhile p)).append_left (xs.takeWhile p)
  rwa [List.takeWhile_append_dropWhile] at h

/-- The star that a catch-all for positional arguments takes the place of. -/
def replacedStar? (params : List ParamText) : Option ParamText :=
  (params.takeWhile (·.kind != .varKeyword)).find? (startsNamed ·.kind)

theorem startsNamed_of_replacedStar? {star : ParamText} (h : replacedStar? params = some star) :
    startsNamed star.kind = true :=
  List.find?_some (p := fun q : ParamText => startsNamed q.kind) h

/-- A catch-all for positional arguments stands behind what is given by position.  The first star
gives its place to it, if there is one. -/
theorem insertVarPositional_eq (params : List ParamText) (p : ParamText) :
    ∃ plain after, (∀ q ∈ plain, q.kind ≠ .varKeyword ∧ startsNamed q.kind = false) ∧
      params = plain ++ ((replacedStar? params).toList ++ after) ∧
      insertVarPositional params p = plain ++ p :: after := by
  set before := params.takeWhile (·.kind != .varKeyword) with hbefore
  set after := params.dropWhile (·.kind != .varKeyword) with hafter
  have hall : params = before ++ after := List.takeWhile_append_dropWhile.symm
  set plain := before.takeWhile (!startsNamed ·.kind) with hplain
  have hsplit : before = plain ++ before.dropWhile (!startsNamed ·.kind) :=
    List.takeWhile_append_dropWhile.symm
  have hstar : replacedStar? params = (before.dropWhile (!startsNamed ·.kind)).head? :=
    List.find?_eq_head?_dropWhile_not _ _
  have hkinds : ∀ q ∈ plain, q.kind ≠ .varKeyword ∧ startsNamed q.kind = false := by
    intro q hq
    have hnamed := List.mem_takeWhile_imp hq
    have hkeyword := List.mem_takeWhile_imp ((List.takeWhile_sublist _).subset hq)
    exact ⟨by simpa using hkeyword, by simpa using hnamed⟩
  have hgoal : insertVarPositional params p =
      plain ++ p :: (before.drop (plain.length + 1) ++ after) := rfl
  -- what is behind the plain ones begins with the first star, or is empty when there is none
  cases hrest : before.dropWhile (!startsNamed ·.kind) with
  | nil =>
    have hb : before = plain := by rw [hsplit, hrest, List.append_nil]
    refine ⟨plain, after, hkinds, ?_, ?_⟩
    · rw [hstar, hrest]
      simpa [← hb] using hall
    · rw [hgoal, ← hb]
      simp
  | cons star named =>
    have hb : before = plain ++ star :: named := by rw [hsplit, hrest]
    have hdrop : before.drop (plain.length + 1) = named := by
      rw [hb, List.drop_append]
      simp
    refine ⟨plain, named ++ after, hkinds, ?_, by rw [hgoal, hdrop]⟩
    rw [hstar, hrest, hall, hb]
    simp

/-- A parameter that is given by name only stands before the catch-all for named arguments, behind a
star that is added when there is none. -/
theorem insertNamedOnly_eq (params : List ParamText) (p : ParamText) : insertNamedOnly params p =
    params.takeWhile (·.kind != .varKeyword) ++
      ((if (replacedStar? params).isSome then [] else [ParamText.star]) ++ [p] ++
        params.dropWhile (·.kind != .varKeyword)) := by
  simp [insertNamedOnly, replacedStar?, List.find?_isSome]

/-- A parameter that is given by position stands before any star.  Only one without a default gets dots. -/
theorem insertPositional_eq (params : List ParamText) (p : ParamText) :
    ∃ before q after, (q = p ∨ p.hasDefault = false ∧ q = p.withDots) ∧
      (∀ r ∈ before, r.kind ≠ .varKeyword ∧ startsNamed r.kind = false) ∧
      params = before ++ after ∧ insertPositional params p = before ++ q :: after := by
  refine ⟨_, _, _, ?_, fun q hq => ?_, List.takeWhile_append_dropWhile.symm, rfl⟩
  · dsimp only
    split
    · next hdots =>
      simp only [Bool.and_eq_true, Bool.not_eq_true'] at hdots
      exact .inr ⟨hdots.1, rfl⟩
    · exact .inl rfl
  · have hends := List.mem_takeWhile_imp hq
    simp only [Bool.not_or, Bool.and_eq_true, Bool.not_eq_true', beq_eq_false_iff_ne] at hends
    exact ⟨hends.2, hends.1⟩

/-! ### One step -/

/-- Whether parameters have what a generated one stands for: a parameter of its name, or of its kind
when it is a catch-all.  One without a name is a marker, which stands for nothing of its own. -/
def Covers (params : List ParamText) (p : ParamText) : Prop :=
  p.name = "" ∨ (∃ q ∈ params, q.name = p.name) ∨
    isCatchAll p.kind = true ∧ ∃ q ∈ params, q.kind = p.kind

/-- What a merge does with one parameter: nothing when what it stands for is there, and else what its
kind asks for. -/
inductive MergesTo (params : List ParamText) (namedOnly : Bool) (p : ParamText) :
    List ParamText → Prop where
  /-- It is there already. -/
  | covered (h : Covers params p) : MergesTo params namedOnly p params
  /-- A catch-all for named arguments goes to the end. -/
  | varKeyword (hnew : ¬ Covers params p) (hkind : p.kind = .varKeyword) :
    MergesTo params namedOnly p (params ++ [p])
  /-- A catch-all for positional arguments takes the place of a star. -/
  | varPositional (hnew : ¬ Covers params p) (hkind : p.kind = .varPositional) :
    MergesTo params namedOnly p (insertVarPositional params p)
  /-- Any other one stands behind the star if it is given by name only. -/
  | byName (hnew : ¬ Covers params p) (hkind : isCatchAll p.kind = false) (h : namedOnly = true) :
    MergesTo params namedOnly p (insertNamedOnly params p)
  /-- Otherwise it stands before the star. -/
  | byPosition (hnew : ¬ Covers params p) (hkind : isCatchAll p.kind = false)
    (h : namedOnly = false) : MergesTo params namedOnly p (insertPositional params p)

theorem covers_iff : Covers params p ↔ (p.name.isEmpty || params.any (·.name == p.name)) = true ∨
    (isCatchAll p.kind && params.any (·.kind == p.kind)) = true := by
  simp [Covers, or_assoc]

/-- A parameter that is missing has a name. -/
theorem name_ne_empty_of_not_covers (hnew : ¬ Covers params p) : p.name ≠ "" :=
  fun hname => hnew (.inl hname)

/-- No other one has its name. -/
theorem name_ne_of_not_covers (hnew : ¬ Covers params p) : ∀ q ∈ params, q.name ≠ p.name :=
  fun q hq hname => hnew (.inr (.inl ⟨q, hq, hname⟩))

/-- A catch-all that is missing has none of its kind. -/
theorem kind_ne_of_not_covers (hnew : ¬ Covers params p) (hcatch : isCatchAll p.kind = true) :
    ∀ q ∈ params, q.kind ≠ p.kind :=
  fun q hq hkind => hnew (.inr (.inr ⟨hcatch, q, hq, hkind⟩))

theorem mergeParam_of_covers (h : Covers params p) (namedOnly : Bool) :
    mergeParam params namedOnly p = params := by
  unfold mergeParam
  split
  · rfl
  · next hname => rw [if_pos ((covers_iff.1 h).resolve_left hname)]

theorem mergesTo_mergeParam (params : List ParamText) (namedOnly : Bool) (p : ParamText) :
    MergesTo params namedOnly p (mergeParam params namedOnly p) := by
  by_cases hnew : Covers params p
  · rw [mergeParam_of_covers hnew]
    exact .covered hnew
  have hguards := not_or.1 (mt covers_iff.2 hnew)
  unfold mergeParam
  rw [if_neg hguards.1, if_neg hguards.2]
  split
  · next hkind => exact .varKeyword hnew hkind
  · next hkind => exact .varPositional hnew hkind
  · next hkeyword hpositional =>
    have hkind : isCatchAll p.kind = false := by
      simp only [isCatchAll, Bool.or_eq_false_iff, beq_eq_false_iff_ne]
      exact ⟨hpositional, hkeyword⟩
    split
    · next h => exact .byName hnew hkind h
    · next h => exact .byPosition hnew hkind (Bool.eq_false_iff.2 h)

/-- What is there after a step was there before, or is the star that the parameter of the step needs, or that
parameter itself; one that is given by position and has no default may have got dots. -/
theorem MergesTo.mem (h : MergesTo params namedOnly p more) (hq : q ∈ more) :
    q ∈ params ∨ q = .star ∨
      ¬ Covers params p ∧ (q = p ∨ isCatchAll p.kind = false ∧ p.hasDefault = false ∧ q = p.withDots) := by
  cases h with
  | covered => exact .inl hq
  | varKeyword hnew =>
    rcases List.mem_append.1 hq with hq | hq
    · exact .inl hq
    · exact .inr (.inr ⟨hnew, .inl (List.mem_singleton.1 hq)⟩)
  | varPositional hnew =>
    obtain ⟨plain, after, -, hparams, hmore⟩ := insertVarPositional_eq params p
    rw [hmore, List.mem_append, List.mem_cons] at hq
    rcases hq with hq | rfl | hq
    · exact .inl (by rw [hparams]; simp [hq])
    · exact .inr (.inr ⟨hnew, .inl rfl⟩)
    · exact .inl (by rw [hparams]; simp [hq])
  | byName hnew =>
    rw [insertNamedOnly_eq] at hq
    simp only [List.mem_append, List.mem_singleton] at hq
    rcases hq with hq | (hq | rfl) | hq
    · exact .inl ((List.takeWhile_sublist _).subset hq)
    · split at hq
      · cases hq
      · exact .inr (.inl (List.mem_singleton.1 hq))
    · exact .inr (.inr ⟨hnew, .inl rfl⟩)
    · exact .inl ((List.dropWhile_sublist _).subset hq)
  | byPosition hnew hkind =>
    obtain ⟨before, r, after, hr, -, hparams, hmore⟩ := insertPositional_eq params p
    rw [hmore, List.mem_append, List.mem_cons] at hq
    rcases hq with hq | rfl | hq
    · exact .inl (by rw [hparams]; simp [hq])
    · exact .inr (.inr ⟨hnew, hr.imp_right fun hdots => ⟨hkind, hdots⟩⟩)
    · exact .inl (by rw [hparams]; simp [hq])

/-- A parameter stays, unless it is a star that gives its place to a catch-all. -/
theorem MergesTo.keeps (h : MergesTo params namedOnly p more) (hq : q ∈ params) :
    q ∈ more ∨ replacedStar? params = some q ∧ q.kind = .keywordOnlyMarker := by
  cases h with
  | covered => exact .inl hq
  | varKeyword => exact .inl (List.mem_append_left _ hq)
  | byName =>
    rw [insertNamedOnly_eq]
    exact .inl ((sublist_insert _ params _).subset hq)
  | byPosition => exact .inl ((sublist_insert _ params [_]).subset hq)
  | varPositional hnew hkind =>
    obtain ⟨plain, after, -, hparams, hmore⟩ := insertVarPositional_eq params p
    have hplace := hq
    rw [hparams, List.mem_append, List.mem_append, Option.mem_toList] at hplace
    rw [hmore, List.mem_append, List.mem_cons]
    rcases hplace with hplain | hstar | hafter
    · exact .inl (.inl hplain)
    · have hstarts := startsNamed_of_replacedStar? hstar
      -- a star with a name is a catch-all, which would have covered the new one
      have hne := kind_ne_of_not_covers hnew (by rw [hkind]; rfl) q hq
      rw [hkind] at hne
      exact .inr ⟨hstar, by simpa [startsNamed, hne] using hstarts⟩
    · exact .inl (.inr (.inr hafter))

/-- What a step leaves has the parameter of the step. -/
theorem MergesTo.covers (h : MergesTo params namedOnly p more) : Covers more p := by
  have named {q : ParamText} (hq : q ∈ more) (hname : q.name = p.name) : Covers more p :=
    .inr (.inl ⟨q, hq, hname⟩)
  cases h with
  | covered h => exact h
  | varKeyword => exact named (q := p) (by simp) rfl
  | varPositional =>
    obtain ⟨plain, after, -, -, hmore⟩ := insertVarPositional_eq params p
    exact named (q := p) (by simp [hmore]) rfl
  | byName => exact named (q := p) (by simp [insertNamedOnly_eq]) rfl
  | byPosition =>
    obtain ⟨before, r, after, hr, -, -, hmore⟩ := insertPositional_eq params p
    exact named (q := r) (by simp [hmore]) (by rcases hr with rfl | ⟨-, rfl⟩ <;> rfl)

end TypedStubs
