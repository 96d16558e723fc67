import TypedStubs.Proofs.Signature.Splice

/-! # How arguments are passed

Synthesis keeps a valid signature valid, and keeps for every parameter how its argument is passed, except
that it may lose a star: a catch-all for positional arguments that is excluded by name goes, and no star
takes its place for the parameters behind it (`LosesStar`, `synthesize_isSignature_iff`).

The parameters of a function have a layout (`IsSignature.exists_layout`).  What exclusion leaves of it is
`Layout.thin`, and what recovered parameters make of that is `Layout.extend`.
-/
namespace TypedStubs

open Syntax (ParamKind)

/-! ### Passing -/

/-- How the argument for a parameter is passed. -/
inductive Passing where
  /-- By position only. -/
  | byPosition
  /-- By position or by name. -/
  | either
  /-- By name only. -/
  | byName
  deriving DecidableEq

/-- How the arguments for the ordinary parameters are passed, in order; `named` says whether a star
stands before them. -/
def passing : Bool → List ParamText → List (String × Passing)
  | _, [] => []
  | named, p :: rest =>
    let more := passing (named || startsNamed p.kind) rest
    if p.kind = .positional then
      (p.name, if named then .byName
        else if rest.any (·.kind == .positionalOnlyMarker) then .byPosition
        else .either) :: more
    else more

section Passing

variable {named : Bool} {params more : List ParamText}

theorem passing_append (h : ∀ p ∈ more, p.kind ≠ .positionalOnlyMarker) :
    passing named (params ++ more) =
      passing named params ++ passing (named || params.any (startsNamed ·.kind)) more := by
  have hmore : more.any (·.kind == .positionalOnlyMarker) = false := by simpa using h
  induction params generalizing named with
  | nil => simp [passing]
  | cons p params ih =>
    simp only [List.cons_append, passing, ih, List.any_append, hmore, Bool.or_false, List.any_cons,
      Bool.or_assoc]
    split <;> rfl

theorem passing_of_positional (h : ∀ p ∈ params, p.kind = .positional) :
    passing named params = params.map fun p => (p.name, if named then .byName else .either) := by
  induction params with
  | nil => rfl
  | cons p params ih =>
    obtain ⟨hp, hparams⟩ := List.forall_mem_cons.1 h
    have hslash : params.any (·.kind == .positionalOnlyMarker) = false := by
      simpa using fun q hq => by simp [hparams q hq]
    have hstar : startsNamed .positional = false := rfl
    simp [passing, hp, hslash, hstar, ih hparams]

theorem passing_eq_nil (h : ∀ p ∈ params, p.kind ≠ .positional) : passing named params = [] := by
  induction params generalizing named with
  | nil => rfl
  | cons p params ih =>
    obtain ⟨hp, hparams⟩ := List.forall_mem_cons.1 h
    simp [passing, hp, ih hparams]

/-- A slash at the front says nothing. -/
theorem passing_dropWhile :
    passing named (params.dropWhile (·.kind == .positionalOnlyMarker)) = passing named params := by
  induction params with
  | nil => rfl
  | cons p params ih =>
    by_cases hp : p.kind = .positionalOnlyMarker
    · have hstar : startsNamed .positionalOnlyMarker = false := rfl
      simpa [hp, passing, hstar] using ih
    · rw [List.dropWhile_cons_of_neg (by simpa using hp)]

/-- How arguments are passed before a star does not change when parameters go, if a slash stays. -/
theorem passing_filter {keep : ParamText → Bool} (stays : String → Bool)
    (hplain : ∀ p ∈ params, p.kind = .positional ∨ p.kind = .positionalOnlyMarker)
    (hslash : ∀ p ∈ params, p.kind = .positionalOnlyMarker → keep p = true)
    (hkeep : ∀ p ∈ params, p.kind = .positional → keep p = stays p.name) :
    passing false (params.filter keep) = (passing false params).filter (stays ·.1) := by
  induction params with
  | nil => rfl
  | cons p params ih =>
    obtain ⟨hp, hplain⟩ := List.forall_mem_cons.1 hplain
    obtain ⟨hpslash, hslash⟩ := List.forall_mem_cons.1 hslash
    obtain ⟨hpkeep, hkeep⟩ := List.forall_mem_cons.1 hkeep
    have ih := ih hplain hslash hkeep
    rcases hp with hkind | hkind
    · have hstar : startsNamed .positional = false := rfl
      have hany : (params.filter keep).any (·.kind == .positionalOnlyMarker) =
          params.any (·.kind == .positionalOnlyMarker) := by
        rw [Bool.eq_iff_iff]
        simp only [List.any_eq_true, List.mem_filter, beq_iff_eq]
        exact ⟨fun ⟨q, hq, hslash⟩ => ⟨q, hq.1, hslash⟩,
          fun ⟨q, hq, hkind⟩ => ⟨q, ⟨hq, hslash q hq hkind⟩, hkind⟩⟩
      by_cases hkeeps : keep p = true
      · simp [passing, hkind, hstar, hkeeps, hpkeep hkind ▸ hkeeps, hany, ih]
      · simp [passing, hkind, hstar, hkeeps, hpkeep hkind ▸ hkeeps, ih]
    · have hstar : startsNamed .positionalOnlyMarker = false := rfl
      simp [passing, hkind, hstar, hpslash hkind, ih]

/-- How arguments are passed, read off the parts of a signature. -/
theorem passing_parts {front star byName rest : List ParamText}
    (hfront : ∀ p ∈ front, startsNamed p.kind = false) (hstar : ∀ p ∈ star, startsNamed p.kind = true)
    (hbyName : ∀ p ∈ byName, p.kind = .positional) (hneeded : byName ≠ [] → star ≠ [])
    (hrest : ∀ p ∈ rest, p.kind = .varKeyword) :
    passing false (front ++ star ++ byName ++ rest) =
      passing false front ++ byName.map fun p => (p.name, .byName) := by
  have hplain : front.any (startsNamed ·.kind) = false := by simpa using hfront
  have hbehind : ∀ p ∈ byName ++ rest, p.kind ≠ .positionalOnlyMarker := by
    intro p hp
    rcases List.mem_append.1 hp with hp | hp
    · simp [hbyName p hp]
    · simp [hrest p hp]
  have hkind p (hp : p ∈ star) := Layout.ne_of_startsNamed (hstar p hp)
  have hslash : ∀ p ∈ star ++ (byName ++ rest), p.kind ≠ .positionalOnlyMarker :=
    List.forall_mem_append.2 ⟨fun p hp => (hkind p hp).2.1, hbehind⟩
  have hnil : ∀ named, passing named rest = [] :=
    fun _ => passing_eq_nil fun p hp => by simp [hrest p hp]
  rw [List.append_assoc, List.append_assoc, passing_append hslash, hplain, Bool.or_false,
    passing_append hbehind, passing_eq_nil fun p hp => (hkind p hp).1, List.nil_append,
    passing_append fun p hp => hbehind p (List.mem_append_right _ hp), hnil, List.append_nil,
    passing_of_positional hbyName]
  cases byName with
  | nil => rfl
  | cons q named =>
    obtain ⟨p, hp⟩ := List.exists_mem_of_ne_nil _ (hneeded (List.cons_ne_nil q named))
    have hany : star.any (startsNamed ·.kind) = true := List.any_eq_true.2 ⟨p, hp, hstar p hp⟩
    simp [hany]

end Passing

/-! ### Layouts of which parameters go -/

namespace Layout

variable {optional : ParamText → Prop} {l : Layout} {keep : ParamText → Bool}

/-- What is left of a layout when only some parameters stay: slashes that come to stand first go, and so
does a lone star that nothing stands behind. -/
def thin (l : Layout) (keep : ParamText → Bool) : Layout where
  byPosition := (l.byPosition.filter keep).dropWhile (·.kind == .positionalOnlyMarker)
  star := (l.star.filter keep).filter fun p =>
    p.kind != .keywordOnlyMarker || !(l.byName.filter keep).isEmpty
  byName := l.byName.filter keep
  rest := l.rest.filter keep

theorem thin_byPosition_sublist (l : Layout) (keep : ParamText → Bool) :
    (l.thin keep).byPosition.Sublist l.byPosition :=
  (List.dropWhile_sublist _).trans List.filter_sublist

theorem thin_sublist (l : Layout) (keep : ParamText → Bool) :
    (l.thin keep).params.Sublist l.params := by
  refine (((l.thin_byPosition_sublist keep).append ?_).append List.filter_sublist).append ?_
  · rw [thin, Option.toList_filter, Option.toList_filter]
    exact List.filter_sublist.trans List.filter_sublist
  · rw [thin, Option.toList_filter]
    exact List.filter_sublist

theorem Parted.thin (h : l.Parted) (keep : ParamText → Bool) : (l.thin keep).Parted where
  byPosition p hp := h.byPosition p ((l.thin_byPosition_sublist keep).subset hp)
  star p hp := h.star p (Option.mem_filter_iff.1 (Option.mem_filter_iff.1 hp).1).1
  byName p hp := h.byName p (List.mem_filter.1 hp).1
  rest p hp := h.rest p (Option.mem_filter_iff.1 hp).1

/-- What is left of a signature is one, if the star stays that is needed. -/
theorem Fits.thin (h : l.Fits optional)
    (hneeded : (l.thin keep).byName ≠ [] → ∀ p ∈ l.star, keep p = true) :
    (l.thin keep).Fits optional where
  wellNamed := h.wellNamed.sublist (l.thin_sublist keep)
  byPosition := (h.parted.thin keep).byPosition
  first := by
    intro p hp
    have hkind := (h.parted.thin keep).byPosition p (List.mem_of_head? hp)
    have hhead := List.head?_dropWhile_not (·.kind == .positionalOnlyMarker) (l.byPosition.filter keep)
    rw [show (List.dropWhile _ _).head? = some p from hp] at hhead
    exact hkind.resolve_right (by simpa using hhead)
  slash := h.slash.sublist (l.thin_byPosition_sublist keep)
  defaults := h.defaults.sublist (l.thin_byPosition_sublist keep)
  star := (h.parted.thin keep).star
  byName := (h.parted.thin keep).byName
  named := by
    intro hne
    have hnamed : l.byName ≠ [] := fun hnil => hne (by simp [Layout.thin, hnil])
    obtain ⟨star, hstar⟩ := Option.ne_none_iff_exists'.1 (h.named hnamed)
    have hleft : (l.byName.filter keep).isEmpty = false := List.isEmpty_eq_false_iff.2 hne
    simp only [Layout.thin, hstar, hleft]
    simp [hneeded hne star hstar]
  lone := by
    intro p hp hkind hnil
    have hleft := (Option.mem_filter_iff.1 hp).2
    rw [show l.byName.filter keep = [] from hnil, hkind] at hleft
    cases hleft
  rest := (h.parted.thin keep).rest

/-- A layout with further parameters that are given by name only. -/
def extend (l : Layout) (further : List ParamText) : Layout :=
  { l with
    star := if further = [] then l.star
      else some (l.star.getD (StubParameter.marker .keywordOnlyMarker).outline)
    byName := l.byName ++ further }

theorem extend_params (hneeded : l.byName ≠ [] → l.star ≠ none) (further : List ParamText) :
    (l.extend further).params = l.byPosition ++ l.star.toList ++ l.byName ++
      (if further = [] ∨ l.star ≠ none then []
        else [(StubParameter.marker .keywordOnlyMarker).outline]) ++ further ++ l.rest.toList := by
  cases hstar : l.star with
  | none =>
    have hnone : l.byName = [] := Decidable.byContradiction fun hne => hneeded hne hstar
    by_cases hnil : further = [] <;> simp [extend, params, hstar, hnone, hnil]
  | some star => by_cases hnil : further = [] <;> simp [extend, params, hstar, hnil]

theorem Fits.extend {further : List ParamText} (h : l.Fits optional)
    (hnamed : WellNamed (l.extend further).params) (hkind : ∀ p ∈ further, p.kind = .positional) :
    (l.extend further).Fits optional := by
  by_cases hnil : further = []
  · subst hnil
    simpa [Layout.extend] using h
  · refine { h with wellNamed := hnamed, star := ?_, byName := ?_, named := ?_, lone := ?_ }
    · intro p hp
      obtain rfl : l.star.getD _ = p := by simpa [Layout.extend, hnil] using hp
      cases hstar : l.star with
      | none => rfl
      | some star => exact h.star star hstar
    · exact List.forall_mem_append.2 ⟨h.byName, hkind⟩
    · exact fun _ => by simp [Layout.extend, hnil]
    · exact fun _ _ _ => by simp [Layout.extend, hnil]

/-- How the arguments of a signature are passed. -/
theorem Fits.passing_params (h : l.Fits optional) :
    passing false l.params = passing false l.byPosition ++ l.byName.map fun p => (p.name, .byName) := by
  refine passing_parts (fun p hp => (h.plain hp).2) ?_ h.byName ?_ ?_
  · exact fun p hp => h.star p (Option.mem_toList.1 hp)
  · exact fun hne => by simpa using h.named hne
  · exact fun p hp => h.rest p (Option.mem_toList.1 hp)

end Layout

namespace Signature

variable {s : Settings} {index : SourceIndex} {owner : Option SourceClass} {f : SourceFunction}
  {optional : ParamText → Prop} {l : Layout} {params own : List StubParameter}

/-! ### Declared parameters in their layout -/

theorem dropLeadingSlashes_append {front behind : List StubParameter}
    (h : ∀ p ∈ behind, p.kind ≠ .positionalOnlyMarker) :
    dropLeadingSlashes (front ++ behind) = dropLeadingSlashes front ++ behind := by
  have hbehind : behind.dropWhile (·.kind == .positionalOnlyMarker) = behind :=
    List.dropWhile_eq_self_iff.2 fun hl => by simpa using h _ (List.getElem_mem hl)
  rw [dropLeadingSlashes, List.dropWhile_append, hbehind]
  split
  · next hnil => rw [dropLeadingSlashes, List.isEmpty_iff.1 hnil, List.nil_append]
  · rfl

theorem dropIdleStars_append {front behind : List StubParameter}
    (h : ∀ p ∈ front, p.kind ≠ .keywordOnlyMarker) :
    dropIdleStars (front ++ behind) = front ++ dropIdleStars behind := by
  induction front with
  | nil => rfl
  | cons p front ih =>
    obtain ⟨hp, hfront⟩ := List.forall_mem_cons.1 h
    rw [List.cons_append, dropIdleStars, if_neg (by simp [hp]), ih hfront, List.cons_append]

theorem dropIdleStars_eq_self (h : ∀ p ∈ params, p.kind ≠ .keywordOnlyMarker) :
    dropIdleStars params = params := by
  simpa [dropIdleStars] using @dropIdleStars_append params [] h

/-- Markers are dropped part by part. -/
theorem dropIdleStars_parts {front star byName rest : List StubParameter}
    (hfront : ∀ p ∈ front, p.kind = .positional ∨ p.kind = .positionalOnlyMarker)
    (hstar : ∀ p ∈ star, startsNamed p.kind = true) (hone : star.length ≤ 1)
    (hbyName : ∀ p ∈ byName, p.kind = .positional) (hrest : ∀ p ∈ rest, p.kind = .varKeyword) :
    dropIdleStars (dropLeadingSlashes (front ++ (star ++ (byName ++ rest)))) =
      dropLeadingSlashes front ++
        (star.filter (fun p => p.kind != .keywordOnlyMarker || !byName.isEmpty) ++
          (byName ++ rest)) := by
  have hbehind : ∀ p ∈ byName ++ rest,
      p.kind ≠ .positionalOnlyMarker ∧ p.kind ≠ .keywordOnlyMarker := by
    intro p hp
    rcases List.mem_append.1 hp with hp | hp
    · simp [hbyName p hp]
    · simp [hrest p hp]
  have hslash : ∀ p ∈ star ++ (byName ++ rest), p.kind ≠ .positionalOnlyMarker :=
    List.forall_mem_append.2 ⟨fun p hp => (Layout.ne_of_startsNamed (hstar p hp)).2.1,
      fun p hp => (hbehind p hp).1⟩
  have hlone : ∀ p ∈ dropLeadingSlashes front, p.kind ≠ .keywordOnlyMarker := by
    intro p hp
    rcases hfront p ((List.dropWhile_sublist _).subset hp) with hkind | hkind <;> simp [hkind]
  -- with nothing given by name, a catch-all for named arguments is all that is left behind the star
  have hall : (byName ++ rest).all (·.kind == .varKeyword) = byName.isEmpty := by
    cases byName with
    | nil => simpa using hrest
    | cons p more => simp [hbyName p List.mem_cons_self]
  rw [dropLeadingSlashes_append hslash, dropIdleStars_append hlone]
  congr 1
  match star, hone with
  | [], _ => exact dropIdleStars_eq_self fun p hp => (hbehind p hp).2
  | [p], _ =>
    rw [List.singleton_append, dropIdleStars, hall, dropIdleStars_eq_self fun p hp => (hbehind p hp).2]
    by_cases hkind : p.kind = .keywordOnlyMarker
    · cases byName.isEmpty <;> simp [hkind]
    · simp [hkind]

/-- What is true of kinds in an outline is true of those of the parameters. -/
theorem forall_kind_of_outline {outline : List ParamText} (C : ParamKind → Prop)
    (h : params.map StubParameter.outline = outline) (hC : ∀ p ∈ outline, C p.kind) :
    ∀ p ∈ params, C p.kind :=
  fun p hp => hC p.outline (h ▸ List.mem_map_of_mem hp)

/-- What a function declares is its layout without what is excluded. -/
theorem outline_ownParams_eq (hl : l.params = f.params.map Parameter.outline) (h : l.Parted)
    (hown : ownParams s index f owner = .ok own) :
    own.map StubParameter.outline = (l.thin (keeps s)).params := by
  obtain ⟨declared, hdeclared, rfl⟩ := ownParams_eq_ok.1 hown
  have houtline := outline_declaredParams hdeclared
  simp only [← hl, Layout.params_eq, List.filter_append, ← Option.toList_filter,
    List.map_eq_append_iff] at houtline
  obtain ⟨front, -, rfl, hfront, star, -, rfl, hstar, byName, rest, rfl, hbyName, hrest⟩ := houtline
  have hone : star.length ≤ 1 := by
    have hlength := congrArg List.length hstar
    rw [List.length_map] at hlength
    rw [hlength]
    cases l.star.filter (keeps s) <;> simp
  have hfrontKind := forall_kind_of_outline (fun kind => kind = .positional ∨
    kind = .positionalOnlyMarker) hfront fun p hp => h.byPosition p (List.mem_filter.1 hp).1
  have hstarKind := forall_kind_of_outline (startsNamed · = true) hstar fun p hp =>
    h.star p (Option.mem_filter_iff.1 (Option.mem_toList.1 hp)).1
  have hbyNameKind := forall_kind_of_outline (· = .positional) hbyName fun p hp =>
    h.byName p (List.mem_filter.1 hp).1
  have hrestKind := forall_kind_of_outline (· = .varKeyword) hrest fun p hp =>
    h.rest p (Option.mem_filter_iff.1 (Option.mem_toList.1 hp)).1
  have hempty : byName.isEmpty = (l.byName.filter (keeps s)).isEmpty := by
    rw [← hbyName, List.isEmpty_map]
  have hfrontOutline : (dropLeadingSlashes front).map StubParameter.outline =
      (l.thin (keeps s)).byPosition := by
    rw [Layout.thin, ← hfront, List.dropWhile_map]
    rfl
  have hstarOutline : (star.filter fun p => p.kind != .keywordOnlyMarker || !byName.isEmpty).map
      StubParameter.outline = (l.thin (keeps s)).star.toList := by
    rw [Layout.thin, Option.toList_filter, ← hstar, hempty, List.filter_map]
    rfl
  rw [dropIdleStars_parts hfrontKind hstarKind hone hbyNameKind hrestKind, Layout.params_eq]
  simp only [List.map_append, hfrontOutline, hstarOutline, hbyName, hrest]
  rfl

/-- Where further parameters stand among those of a layout. -/
theorem outline_insertNamed (hl : own.map StubParameter.outline = l.params) (h : l.Parted)
    (further : List StubParameter) :
    (insertNamed own further).map StubParameter.outline =
      l.byPosition ++ l.star.toList ++ l.byName ++
        (if further = [] ∨ l.star ≠ none then [] else [(StubParameter.marker .keywordOnlyMarker).outline]) ++
        further.map StubParameter.outline ++ l.rest.toList := by
  rw [Layout.params, List.map_eq_append_iff] at hl
  obtain ⟨before, behind, rfl, hbefore, hbehind⟩ := hl
  have hfront : ∀ p ∈ before, p.kind ≠ .varKeyword :=
    forall_kind_of_outline (· ≠ .varKeyword) hbefore fun p hp => h.ne_varKeyword hp
  have hback : ∀ p ∈ behind.head?, p.kind = .varKeyword := fun p hp =>
    forall_kind_of_outline (· = .varKeyword) hbehind
      (fun q hq => h.rest q (Option.mem_toList.1 hq)) p (List.mem_of_head? hp)
  have hstar : before.any (isStar ·.kind) = l.star.isSome := by
    rw [← h.any_startsNamed, ← hbefore, List.any_map]
    rfl
  rw [insertNamed_append hfront hback, addedStar, hstar]
  simp only [List.map_append, hbefore, hbehind]
  congr 3
  cases further <;> cases l.star <;> rfl

/-! ### The star that is lost -/

/-- Whether a function loses a star that it needs: the star of a catch-all that is excluded, behind which
stands a parameter that is not. -/
def LosesStar (s : Settings) (f : SourceFunction) : Prop :=
  ∃ star behind, f.params.dropWhile (!isStar ·.kind) = star :: behind ∧
    star.kind = .varPositional ∧ s.excludedParameters.contains star.name = true ∧
    ∃ p ∈ behind, p.kind = .positional ∧ s.excludedParameters.contains p.name = false

@[simp] theorem kind_outline (p : Parameter) : p.outline.kind = p.kind := by
  unfold Parameter.outline
  split <;> rfl

theorem keeps_of_positional {p : ParamText} (h : p.kind = .positional) :
    keeps s p = !s.excludedParameters.contains p.name := by
  simp [keeps, ParamText.isMarker, h]

theorem losesStar_iff (hl : l.params = f.params.map Parameter.outline) (h : l.Fits optional) :
    LosesStar s f ↔ (l.thin (keeps s)).byName ≠ [] ∧ ∃ p ∈ l.star, keeps s p = false := by
  have hdrop : (f.params.dropWhile (!isStar ·.kind)).map Parameter.outline =
      if l.star = none then [] else l.star.toList ++ (l.byName ++ l.rest.toList) := by
    rw [← h.parted.dropWhile_startsNamed h.named, hl, List.dropWhile_map]
    simp only [Function.comp_def, kind_outline]
    rfl
  constructor
  · rintro ⟨star, behind, hbehind, hkind, hexcluded, p, hp, hpositional, hkept⟩
    rw [hbehind, List.map_cons] at hdrop
    cases hstar : l.star with
    | none => simp [hstar] at hdrop
    | some o =>
      obtain ⟨rfl, hrest⟩ : star.outline = o ∧
          behind.map Parameter.outline = l.byName ++ l.rest.toList := by simpa [hstar] using hdrop
      have hmem : p.outline ∈ l.byName ++ l.rest.toList := hrest ▸ List.mem_map_of_mem hp
      have hbyName : p.outline ∈ l.byName := (List.mem_append.1 hmem).resolve_right fun hmem => by
        have hkeyword := h.rest _ (Option.mem_toList.1 hmem)
        simp [hpositional] at hkeyword
      have hstays : keeps s p.outline = true := by
        rw [keeps_outline, hkept, Bool.not_false, Bool.or_true]
      refine ⟨List.ne_nil_of_mem (List.mem_filter.2 ⟨hbyName, hstays⟩), _, rfl, ?_⟩
      rw [keeps_outline, hexcluded, Parameter.isMarker, hkind]
      rfl
  · rintro ⟨hne, o, ho, hgoes⟩
    rw [Option.mem_def.1 ho, if_neg (by simp)] at hdrop
    obtain ⟨star, behind, hbehind, rfl, hrest⟩ := List.map_eq_cons_iff.1 hdrop
    have hstarts := h.star _ ho
    rw [kind_outline] at hstarts
    rw [keeps_outline, Bool.or_eq_false_iff, Bool.not_eq_false'] at hgoes
    obtain ⟨q, hq⟩ := List.exists_mem_of_ne_nil _ hne
    obtain ⟨hq, hstays⟩ := List.mem_filter.1 hq
    have hbehindOutline : behind.map Parameter.outline = l.byName ++ l.rest.toList := hrest
    obtain ⟨p, hp, hpq⟩ := List.mem_map.1 (hbehindOutline ▸ List.mem_append_left _ hq)
    have hpositional : p.kind = .positional := by rw [← kind_outline, hpq, h.byName q hq]
    refine ⟨star, behind, hbehind, ?_, hgoes.2, p, hp, hpositional, ?_⟩
    · -- a star that goes is no marker
      have hmarker := hgoes.1
      cases hkind : star.kind <;> simp_all [startsNamed, Parameter.isMarker]
    · rw [← hpq, keeps_outline, Parameter.isMarker, hpositional] at hstays
      simpa using hstays

/-- How the arguments for the parameters that stay are passed. -/
theorem passing_thin (h : l.Fits optional) :
    (passing false l.params).filter (fun e => !s.excludedParameters.contains e.1) =
      passing false (l.thin (keeps s)).byPosition ++
        (l.thin (keeps s)).byName.map fun p => (p.name, .byName) := by
  rw [h.passing_params, List.filter_append, List.filter_map]
  have hslash : ∀ p ∈ l.byPosition, p.kind = .positionalOnlyMarker → keeps s p = true := by
    intro p _ hkind
    simp [keeps, ParamText.isMarker, hkind]
  congr 1
  · rw [← passing_filter (!s.excludedParameters.contains ·) h.byPosition hslash
      fun p _ hkind => keeps_of_positional hkind, ← passing_dropWhile]
    rfl
  · refine congrArg _ (List.filter_congr fun p hp => ?_)
    exact (keeps_of_positional (h.byName p hp)).symm

/-! ### Signatures that are made -/

/-- Whether a parameter in an outline has a default. -/
def HasDefault (p : ParamText) : Prop := p.text = "="

instance : DecidablePred HasDefault := fun p => inferInstanceAs (Decidable (p.text = "="))

/-- Whether arguments are passed in a signature as the function says: in the same way for each of its
parameters that stays, and by name for those that are recovered. -/
def KeepsPassing (s : Settings) (index : SourceIndex) (f : SourceFunction)
    (params : List StubParameter) : Prop :=
  passing false (params.map StubParameter.outline) =
    (passing false (f.params.map Parameter.outline)).filter
        (fun e => !s.excludedParameters.contains e.1) ++
      (undeclared s index f).map fun p => (p.name, .byName)

theorem kind_undeclared :
    ∀ p ∈ (undeclared s index f).map StubParameter.outline, p.kind = .positional := by
  intro o ho
  obtain ⟨p, hp, rfl⟩ := List.mem_map.1 ho
  exact kind_of_mem_documentedParams (List.mem_filter.1 hp).1

/-- A valid signature stays valid, and arguments are passed as before, if no star is lost. -/
theorem isSignature_of_not_losesStar (hvalid : IsSignature HasDefault (f.params.map Parameter.outline))
    (hstar : ¬ LosesStar s f)
    (hdistinct : DistinctNames ((undeclared s index f).map StubParameter.outline))
    (h : synthesize s index f owner = .ok params) :
    IsSignature HasDefault (params.map StubParameter.outline) ∧ KeepsPassing s index f params := by
  obtain ⟨l, hl, hfits⟩ := hvalid.exists_layout
  have hnamed := distinctNames_synthesize hvalid.names hdistinct h
  have hmarkers : MarkersUnnamed (params.map StubParameter.outline) := by
    intro o ho
    obtain ⟨p, hp, rfl⟩ := List.mem_map.1 ho
    exact unnamed_synthesize h p hp
  obtain ⟨own, hown, rfl⟩ := synthesize_eq_ok.1 h
  have hneeded : (l.thin (keeps s)).byName ≠ [] → ∀ p ∈ l.star, keeps s p = true := by
    intro hne p hp
    by_contra hgoes
    exact hstar ((losesStar_iff hl hfits).2 ⟨hne, p, hp, Bool.eq_false_iff.2 hgoes⟩)
  have hthin := hfits.thin hneeded
  have hparams : (insertNamed own (undeclared s index f)).map StubParameter.outline =
      ((l.thin (keeps s)).extend ((undeclared s index f).map StubParameter.outline)).params := by
    rw [outline_insertNamed (outline_ownParams_eq hl hfits.parted hown) hthin.parted,
      Layout.extend_params hthin.named]
    simp only [List.map_eq_nil_iff]
  rw [hparams] at hnamed hmarkers
  have hfinal := hthin.extend ⟨hmarkers, hnamed⟩ kind_undeclared
  refine ⟨hparams ▸ hfinal.isSignature, ?_⟩
  rw [KeepsPassing, hparams, hfinal.passing_params, ← hl, passing_thin hfits, List.append_assoc]
  simp only [Layout.extend, List.map_append, List.map_map]
  rfl

/-- Without a star, what should be given by name is given like what stands before it. -/
theorem passing_insertNamed_of_no_star (hl : own.map StubParameter.outline = l.params) (h : l.Parted)
    (hnone : l.star = none) {further : List StubParameter}
    (hfurther : ∀ p ∈ further.map StubParameter.outline, p.kind = .positional) :
    passing false ((insertNamed own further).map StubParameter.outline) =
      passing false l.byPosition ++ l.byName.map (fun p => (p.name, .either)) ++
        further.map fun p => (p.name, .byName) := by
  have hfront : ∀ p ∈ l.byPosition ++ l.byName, startsNamed p.kind = false :=
    List.forall_mem_append.2 ⟨fun p hp => h.startsNamed_byPosition hp,
      fun p hp => h.startsNamed_byName hp⟩
  have hplain : l.byPosition.any (startsNamed ·.kind) = false := by
    simpa using fun p hp => h.startsNamed_byPosition hp
  have hslash : ∀ p ∈ l.byName, p.kind ≠ .positionalOnlyMarker := fun p hp => by simp [h.byName p hp]
  have hrest : ∀ p ∈ l.rest.toList, p.kind = .varKeyword := fun p hp =>
    h.rest p (Option.mem_toList.1 hp)
  rw [outline_insertNamed hl h, hnone, Option.toList_none, List.append_nil,
    passing_parts hfront ?_ hfurther ?_ hrest, passing_append hslash,
    passing_of_positional h.byName, List.map_map]
  · simp [hplain, StubParameter.outline]
  · -- the star that is added is a lone one
    intro p hp
    split at hp
    · cases hp
    · rw [List.mem_singleton.1 hp]
      rfl
  · intro hne
    simpa using hne

/-- When a star is lost, arguments that have to be passed by name may be passed by position too. -/
theorem not_keepsPassing_of_losesStar
    (hvalid : IsSignature HasDefault (f.params.map Parameter.outline)) (hloses : LosesStar s f)
    (h : synthesize s index f owner = .ok params) : ¬ KeepsPassing s index f params := by
  obtain ⟨l, hl, hfits⟩ := hvalid.exists_layout
  obtain ⟨own, hown, rfl⟩ := synthesize_eq_ok.1 h
  obtain ⟨hne, star, hstar, hgoes⟩ := (losesStar_iff hl hfits).1 hloses
  have hnone : (l.thin (keeps s)).star = none := by
    simp [Layout.thin, Option.mem_def.1 hstar, hgoes]
  intro hpassing
  rw [KeepsPassing, passing_insertNamed_of_no_star (outline_ownParams_eq hl hfits.parted hown)
    (hfits.parted.thin _) hnone kind_undeclared, ← hl, passing_thin hfits] at hpassing
  have heq := List.append_cancel_left (List.append_cancel_right hpassing)
  obtain ⟨p, hp⟩ := List.exists_mem_of_ne_nil _ hne
  simpa using List.map_inj_left.1 heq p hp

/-- **Signatures that are made are valid and keep how arguments are passed**, just when no star is lost and
no name is recovered twice. -/
theorem synthesize_isSignature_iff (hvalid : IsSignature HasDefault (f.params.map Parameter.outline))
    (h : synthesize s index f owner = .ok params) :
    (IsSignature HasDefault (params.map StubParameter.outline) ∧ KeepsPassing s index f params) ↔
      ¬ LosesStar s f ∧ DistinctNames ((undeclared s index f).map StubParameter.outline) := by
  refine ⟨fun ⟨hsignature, hpassing⟩ => ⟨fun hloses => ?_, ?_⟩, fun ⟨hstar, hdistinct⟩ =>
    isSignature_of_not_losesStar hvalid hstar hdistinct h⟩
  · exact not_keepsPassing_of_losesStar hvalid hloses h hpassing
  · obtain ⟨own, -, rfl⟩ := synthesize_eq_ok.1 h
    obtain ⟨before, behind, rfl, hfront, hback⟩ := exists_split own
    rw [insertNamed_append hfront hback] at hsignature
    have hsub : (undeclared s index f).Sublist
        (before ++ addedStar before (undeclared s index f) ++ undeclared s index f ++ behind) :=
      (List.sublist_append_right _ _).trans (List.sublist_append_left _ _)
    exact hsignature.names.sublist (hsub.map _)

/-- A function all of whose parts have parameters. -/
def draw : SourceFunction :=
  { plot with
    name := "draw"
    params := [⟨"x", .positional, none, none⟩, ⟨"/", .positionalOnlyMarker, none, none⟩,
      ⟨"y", .positional, none, some "0"⟩, ⟨"sizes", .varPositional, none, none⟩,
      ⟨"label", .positional, none, none⟩, ⟨"kwargs", .varKeyword, none, none⟩] }

/-- Without its first parameter, which leaves a slash behind, it is still well formed. -/
theorem synthesize_isSignature_draw :
    let s := { Settings.standard with excludedParameters := ["x"] }
    IsSignature HasDefault (draw.params.map Parameter.outline) ∧
    ∃ params, synthesize s shapes draw none = .ok params ∧
      params.map (·.render) = ["y=0", "*sizes", "label", "width: float = ...", "**kwargs"] ∧
      IsSignature HasDefault (params.map StubParameter.outline) ∧ KeepsPassing s shapes draw params := by
  intro s
  have hvalid : IsSignature HasDefault (draw.params.map Parameter.outline) := by decide +kernel
  have hparams : synthesize s shapes draw none = .ok
      [⟨"y", .positional, none, some "0", false⟩, ⟨"sizes", .varPositional, none, none, false⟩,
        ⟨"label", .positional, none, none, false⟩,
        ⟨"width", .positional, some (.name "float"), some "...", true⟩,
        ⟨"kwargs", .varKeyword, none, none, false⟩] := by decide +kernel
  have hstar : ¬ LosesStar s draw := by
    rintro ⟨star, behind, hbehind, -, hexcluded, -⟩
    obtain rfl := (List.cons.inj hbehind).1
    exact absurd hexcluded (by decide)
  have hdistinct : DistinctNames ((undeclared s shapes draw).map StubParameter.outline) := by
    decide +kernel
  exact ⟨hvalid, _, hparams, by decide +kernel,
    (synthesize_isSignature_iff hvalid hparams).2 ⟨hstar, hdistinct⟩⟩

/-- Without the catch-all of `def f(a=1, *args, b)` an argument for `b` may be passed by position, and a
parameter without a default follows one with a default. -/
theorem losesStar_invalid :
    let s := { Settings.standard with excludedParameters := ["args"] }
    let f := { plot with params := [⟨"a", .positional, none, some "1"⟩,
      ⟨"args", .varPositional, none, none⟩, ⟨"b", .positional, none, none⟩] }
    IsSignature HasDefault (f.params.map Parameter.outline) ∧
    ∃ params, synthesize s ⟨[]⟩ f none = .ok params ∧ params.map (·.render) = ["a=1", "b"] ∧
      ¬ IsSignature HasDefault (params.map StubParameter.outline) ∧
      ("b", Passing.byName) ∈ passing false (f.params.map Parameter.outline) ∧
      ("b", Passing.either) ∈ passing false (params.map StubParameter.outline) := by
  refine ⟨by decide +kernel, [⟨"a", .positional, none, some "1", false⟩,
    ⟨"b", .positional, none, none, false⟩], ?_⟩
  decide +kernel

end Signature
end TypedStubs
