import Mathlib.Data.List.Pairwise
import Mathlib.Data.List.TakeWhile
import TypedStubs.Proofs.Stub.Absorption

/-! # Well-formed signatures

`IsSignature` says when parameters are a signature of the language.  Such parameters have a layout:
those that are given by position, a star, those that are given by name, and a catch-all for named
arguments (`IsSignature.exists_layout`, `Layout.Fits.isSignature`).
-/
namespace TypedStubs

open Syntax (ParamKind)

/-- The parameters that stand before any star. -/
def beforeStar (params : List ParamText) : List ParamText :=
  params.takeWhile (!startsNamed ·.kind)

/-- Whether two parameters in this order have different names, if they have any. -/
def ParamText.NameApart (p q : ParamText) : Prop := p.name = q.name → p.name = ""

instance (p q : ParamText) : Decidable (p.NameApart q) :=
  inferInstanceAs (Decidable (p.name = q.name → p.name = ""))

/-- Well-formed parameters.  `optional` says which of them count as having a default. -/
@[mk_iff]
structure IsSignature (optional : ParamText → Prop) (params : List ParamText) : Prop where
  /-- Markers have no name. -/
  markers : MarkersUnnamed params
  /-- No name is there twice. -/
  names : params.Pairwise ParamText.NameApart
  /-- Before a slash there is neither a star nor another slash. -/
  slash : params.Pairwise fun p q => q.kind = .positionalOnlyMarker →
    p.kind ≠ .positionalOnlyMarker ∧ startsNamed p.kind = false
  /-- A parameter that is given by position stands before a slash. -/
  beforeSlash : (∃ p ∈ params, p.kind = .positionalOnlyMarker) →
    ∃ q ∈ params.takeWhile (·.kind != .positionalOnlyMarker), q.kind = .positional
  /-- There is one star at most, be it alone or with a name. -/
  star : params.Pairwise fun p q => startsNamed p.kind = true → startsNamed q.kind = false
  /-- An ordinary parameter stands behind a lone star. -/
  behindStar : (∃ p ∈ params, p.kind = .keywordOnlyMarker) →
    ∃ q ∈ params.dropWhile (·.kind != .keywordOnlyMarker), q.kind = .positional
  /-- Nothing stands behind a catch-all for named arguments. -/
  last : params.Pairwise fun p _ => p.kind ≠ .varKeyword
  /-- Before the star, what follows a parameter with a default has one. -/
  defaults : (beforeStar params).Pairwise fun p q =>
    p.kind = .positional → q.kind = .positional → optional p → optional q

instance (optional : ParamText → Prop) [DecidablePred optional] (params : List ParamText) :
    Decidable (IsSignature optional params) :=
  decidable_of_iff _ (isSignature_iff optional params).symm

/-- Whether markers have no name, and no name is there twice. -/
def WellNamed (params : List ParamText) : Prop :=
  MarkersUnnamed params ∧ params.Pairwise ParamText.NameApart

theorem WellNamed.sublist {params more : List ParamText} (h : WellNamed more)
    (hsub : params.Sublist more) : WellNamed params :=
  ⟨fun p hp => h.1 p (hsub.subset hp), h.2.sublist hsub⟩

/-- Parameters stay well named when one is put among them whose name is not there. -/
theorem WellNamed.insert {front behind : List ParamText} {p : ParamText}
    (h : WellNamed (front ++ behind)) (hmarker : p.isMarker = true → p.name = "")
    (hp : ∀ q ∈ front ++ behind, q.name = p.name → p.name = "") :
    WellNamed (front ++ p :: behind) := by
  have hsymm : ∀ {q r : ParamText}, q.NameApart r → r.NameApart q :=
    fun hqr heq => heq ▸ hqr heq.symm
  constructor
  · intro q hq
    rw [List.mem_append, List.mem_cons] at hq
    rcases hq with hq | rfl | hq
    · exact h.1 q (List.mem_append_left _ hq)
    · exact hmarker
    · exact h.1 q (List.mem_append_right _ hq)
  · rw [List.pairwise_middle hsymm, List.pairwise_cons]
    exact ⟨fun q hq heq => hp q hq heq.symm, h.2⟩

/-- A signature by its parts. -/
structure Layout where
  /-- What is given by position, with the slash. -/
  byPosition : List ParamText
  /-- The star, alone or with a name. -/
  star : Option ParamText
  /-- What is given by name only. -/
  byName : List ParamText
  /-- The catch-all for named arguments. -/
  rest : Option ParamText

namespace Layout

/-- The parameters in order. -/
def params (l : Layout) : List ParamText :=
  l.byPosition ++ l.star.toList ++ l.byName ++ l.rest.toList

/-- Whether the parts of a layout make a signature. -/
structure Fits (optional : ParamText → Prop) (l : Layout) : Prop where
  /-- Its parameters are well named. -/
  wellNamed : WellNamed l.params
  /-- Only a slash stands among what is given by position. -/
  byPosition : ∀ p ∈ l.byPosition, p.kind = .positional ∨ p.kind = .positionalOnlyMarker
  /-- It does not stand first. -/
  first : ∀ p ∈ l.byPosition.head?, p.kind = .positional
  /-- It stands there once. -/
  slash : l.byPosition.Pairwise fun p q => q.kind = .positionalOnlyMarker →
    p.kind ≠ .positionalOnlyMarker
  /-- What follows a default has one. -/
  defaults : l.byPosition.Pairwise fun p q =>
    p.kind = .positional → q.kind = .positional → optional p → optional q
  /-- A star is a star. -/
  star : ∀ p ∈ l.star, startsNamed p.kind = true
  /-- What is given by name only is ordinary. -/
  byName : ∀ p ∈ l.byName, p.kind = .positional
  /-- It needs a star. -/
  named : l.byName ≠ [] → l.star ≠ none
  /-- A lone star needs it. -/
  lone : ∀ p ∈ l.star, p.kind = .keywordOnlyMarker → l.byName ≠ []
  /-- The last one is a catch-all. -/
  rest : ∀ p ∈ l.rest, p.kind = .varKeyword

/-- Whether the parts of a layout have parameters of their kinds, whatever else is amiss. -/
structure Parted (l : Layout) : Prop where
  /-- Only a slash stands among what is given by position. -/
  byPosition : ∀ p ∈ l.byPosition, p.kind = .positional ∨ p.kind = .positionalOnlyMarker
  /-- A star is a star. -/
  star : ∀ p ∈ l.star, startsNamed p.kind = true
  /-- What is given by name only is ordinary. -/
  byName : ∀ p ∈ l.byName, p.kind = .positional
  /-- The last one is a catch-all. -/
  rest : ∀ p ∈ l.rest, p.kind = .varKeyword

variable {optional : ParamText → Prop} {l : Layout} {p q : ParamText}

theorem params_eq (l : Layout) :
    l.params = l.byPosition ++ (l.star.toList ++ (l.byName ++ l.rest.toList)) := by
  simp [params]

theorem ne_of_startsNamed {kind : ParamKind} (h : startsNamed kind = true) :
    kind ≠ .positional ∧ kind ≠ .positionalOnlyMarker ∧ kind ≠ .varKeyword := by
  cases kind <;> simp_all [startsNamed]

theorem Fits.parted (h : l.Fits optional) : l.Parted := ⟨h.byPosition, h.star, h.byName, h.rest⟩

theorem Parted.startsNamed_byPosition (h : l.Parted) (hp : p ∈ l.byPosition) :
    startsNamed p.kind = false := by
  rcases h.byPosition p hp with hkind | hkind <;> rw [hkind] <;> rfl

theorem Parted.startsNamed_byName (h : l.Parted) (hp : p ∈ l.byName) : startsNamed p.kind = false := by
  rw [h.byName p hp]
  rfl

theorem Parted.ne_varKeyword (h : l.Parted) (hp : p ∈ l.byPosition ++ l.star.toList ++ l.byName) :
    p.kind ≠ .varKeyword := by
  intro hkind
  rw [List.append_assoc, List.mem_append, List.mem_append, Option.mem_toList] at hp
  rcases hp with hp | hp | hp
  · simpa [hkind] using h.byPosition p hp
  · exact (ne_of_startsNamed (h.star p hp)).2.2 hkind
  · simpa [hkind] using h.byName p hp

/-- Before the catch-all there is a star just when the layout has one. -/
theorem Parted.any_startsNamed (h : l.Parted) :
    (l.byPosition ++ l.star.toList ++ l.byName).any (startsNamed ·.kind) = l.star.isSome := by
  have hbyPosition : l.byPosition.any (startsNamed ·.kind) = false := by
    simpa using fun p hp => h.startsNamed_byPosition hp
  have hbyName : l.byName.any (startsNamed ·.kind) = false := by
    simpa using fun p hp => h.startsNamed_byName hp
  rw [List.any_append, List.any_append, hbyPosition, hbyName]
  cases hstar : l.star with
  | none => rfl
  | some star => simpa using h.star star hstar

/-- The parameters from the star on, when no star is missing. -/
theorem Parted.dropWhile_startsNamed (h : l.Parted) (hneeded : l.byName ≠ [] → l.star ≠ none) :
    l.params.dropWhile (!startsNamed ·.kind) =
      if l.star = none then [] else l.star.toList ++ (l.byName ++ l.rest.toList) := by
  have hplain : ∀ p ∈ l.byPosition, (!startsNamed p.kind) = true := by
    simpa using fun p hp => h.startsNamed_byPosition hp
  rw [params_eq, List.dropWhile_append_of_pos hplain]
  cases hstar : l.star with
  | none =>
    have hnone : l.byName = [] := Decidable.byContradiction fun hne => hneeded hne hstar
    have hrest : ∀ p ∈ l.rest.toList, (!startsNamed p.kind) = true := by
      intro p hp
      rw [h.rest p (Option.mem_toList.1 hp)]
      rfl
    simpa [hnone] using hrest
  | some star => simp [h.star star hstar]

/-- What is given by position is no star and no catch-all. -/
theorem Fits.plain (h : l.Fits optional) (hp : p ∈ l.byPosition) :
    p.kind ≠ .varKeyword ∧ startsNamed p.kind = false := by
  rcases h.byPosition p hp with hkind | hkind <;> simp [hkind, startsNamed]

/-- There is no star behind the first one. -/
theorem Fits.behind (h : l.Fits optional) (hp : p ∈ l.byName ++ l.rest.toList) :
    p.kind ≠ .positionalOnlyMarker ∧ startsNamed p.kind = false := by
  rcases List.mem_append.1 hp with hp | hp
  · simp [h.byName p hp, startsNamed]
  · simp [h.rest p (Option.mem_toList.1 hp), startsNamed]

/-- Without a star nothing is given by name only. -/
theorem Fits.byName_eq_nil (h : l.Fits optional) (hnone : l.star = none) : l.byName = [] :=
  Decidable.byContradiction fun hne => h.named hne hnone

theorem Fits.beforeStar_params (h : l.Fits optional) :
    beforeStar l.params = l.byPosition ++ if l.star.isSome then [] else l.rest.toList := by
  rw [beforeStar, params_eq, List.takeWhile_append_of_pos (by simpa using fun p hp => (h.plain hp).2)]
  congr 1
  cases hstar : l.star with
  | some star => simp [h.star star hstar]
  | none =>
    have hnone := h.byName_eq_nil hstar
    cases hrest : l.rest with
    | none => simp [hnone]
    | some rest => simp [hnone, h.rest rest hrest, startsNamed]

theorem Fits.ne_varKeyword (h : l.Fits optional) (hp : p ∈ l.byPosition ++ l.star.toList ++ l.byName) :
    p.kind ≠ .varKeyword :=
  h.parted.ne_varKeyword hp

theorem Fits.ne_slash (h : l.Fits optional) (hp : p ∈ l.star.toList ++ (l.byName ++ l.rest.toList)) :
    p.kind ≠ .positionalOnlyMarker := by
  rcases List.mem_append.1 hp with hp | hp
  · exact (ne_of_startsNamed (h.star p (Option.mem_toList.1 hp))).2.1
  · exact (h.behind hp).1

theorem pairwise_toList {α : Type} {R : α → α → Prop} (o : Option α) : o.toList.Pairwise R := by
  cases o <;> simp

/-- A signature is read off its layout. -/
theorem Fits.isSignature (h : l.Fits optional) : IsSignature optional l.params where
  markers := h.wellNamed.1
  names := h.wellNamed.2
  slash := by
    rw [params_eq, List.pairwise_append]
    refine ⟨h.slash.imp_of_mem fun hp _ hne hkind => ⟨hne hkind, (h.plain hp).2⟩, ?_, ?_⟩
    · exact List.pairwise_of_forall_mem_list fun p _ q hq hkind => absurd hkind (h.ne_slash hq)
    · exact fun p _ q hq hkind => absurd hkind (h.ne_slash hq)
  beforeSlash := by
    rintro ⟨p, hp, hkind⟩
    rw [params_eq, List.mem_append] at hp
    -- there is a slash, so what is given by position is not empty, and its first one is ordinary
    have hmem : p ∈ l.byPosition := hp.resolve_right fun hp => h.ne_slash hp hkind
    obtain ⟨q, more, hfront⟩ := List.exists_cons_of_ne_nil (List.ne_nil_of_mem hmem)
    have hq : q.kind = .positional := h.first q (by rw [hfront, List.head?_cons]; rfl)
    refine ⟨q, ?_, hq⟩
    simp [params_eq, hfront, hq]
  star := by
    rw [params_eq, List.pairwise_append, List.pairwise_append]
    refine ⟨?_, ⟨pairwise_toList _, ?_, fun p _ q hq _ => (h.behind hq).2⟩, ?_⟩
    · exact List.pairwise_of_forall_mem_list fun p hp q hq _ => (h.plain hq).2
    · exact List.pairwise_of_forall_mem_list fun p _ q hq _ => (h.behind hq).2
    · intro p hp q _ hstar
      rw [(h.plain hp).2] at hstar
      cases hstar
  behindStar := by
    rintro ⟨p, hp, hkind⟩
    rw [params_eq, List.mem_append, List.mem_append] at hp
    have hstarts : startsNamed p.kind = true := by rw [hkind]; rfl
    have hstar : l.star = some p := by
      rcases hp with hp | hp | hp
      · simp [(h.plain hp).2] at hstarts
      · exact Option.mem_toList.1 hp
      · simp [(h.behind hp).2] at hstarts
    obtain ⟨q, more, hnamed⟩ := List.exists_cons_of_ne_nil (h.lone p hstar hkind)
    have hfront : ∀ r ∈ l.byPosition, (r.kind != .keywordOnlyMarker) = true := by
      intro r hr
      rcases h.byPosition r hr with hr | hr <;> rw [hr] <;> rfl
    refine ⟨q, ?_, h.byName q (by simp [hnamed])⟩
    rw [params_eq, List.dropWhile_append_of_pos hfront]
    simp [hstar, hkind, hnamed]
  last := by
    rw [params, List.pairwise_append]
    refine ⟨?_, pairwise_toList _, fun p hp _ _ => h.ne_varKeyword hp⟩
    exact List.pairwise_of_forall_mem_list fun p hp _ _ => h.ne_varKeyword hp
  defaults := by
    rw [h.beforeStar_params, List.pairwise_append]
    refine ⟨h.defaults, by split <;> [exact .nil; exact pairwise_toList _], ?_⟩
    intro p _ q hq _ hpositional
    split at hq
    · cases hq
    · rw [h.rest q (Option.mem_toList.1 hq)] at hpositional
      cases hpositional

/-- A layout of a signature fits when every part has parameters of its kind. -/
theorem fits_of_isSignature (h : IsSignature optional l.params)
    (hplain : ∀ p ∈ l.byPosition, p.kind ≠ .varKeyword ∧ startsNamed p.kind = false)
    (hstar : ∀ p ∈ l.star, startsNamed p.kind = true) (hbyName : ∀ p ∈ l.byName, p.kind = .positional)
    (hnamed : l.byName ≠ [] → l.star ≠ none) (hrest : ∀ p ∈ l.rest, p.kind = .varKeyword) :
    l.Fits optional where
  wellNamed := ⟨h.markers, h.names⟩
  byPosition := by
    intro p hp
    obtain ⟨hkeyword, hstarts⟩ := hplain p hp
    cases hkind : p.kind <;> simp_all [startsNamed]
  first := by
    intro p hp
    obtain ⟨hkeyword, hstarts⟩ := hplain p (List.mem_of_head? hp)
    obtain ⟨more, hfront⟩ := List.head?_eq_some_iff.1 hp
    have hslash : p.kind ≠ .positionalOnlyMarker := by
      -- before a slash in the first place nothing stands
      intro hkind
      obtain ⟨q, hq, -⟩ := h.beforeSlash ⟨p, by simp [params_eq, hfront], hkind⟩
      simp [params_eq, hfront, hkind] at hq
    cases hkind : p.kind <;> simp_all [startsNamed]
  slash := by
    have hslash := h.slash
    rw [params_eq, List.pairwise_append] at hslash
    exact hslash.1.imp fun hpq hkind => (hpq hkind).1
  defaults := by
    have hsub : l.byPosition.Sublist (beforeStar l.params) := by
      rw [beforeStar, params_eq,
        List.takeWhile_append_of_pos (by simpa using fun p hp => (hplain p hp).2)]
      exact List.sublist_append_left _ _
    exact h.defaults.sublist hsub
  star := hstar
  byName := hbyName
  named := hnamed
  lone := by
    intro p hp hkind hnone
    have hfront : ∀ r ∈ l.byPosition, (r.kind != .keywordOnlyMarker) = true := by
      intro r hr
      rw [bne_iff_ne]
      intro hlone
      have hstarts := (hplain r hr).2
      rw [hlone] at hstarts
      cases hstarts
    obtain ⟨q, hq, hpositional⟩ := h.behindStar ⟨p, by simp [params_eq, Option.mem_def.1 hp], hkind⟩
    rw [params_eq, List.dropWhile_append_of_pos hfront] at hq
    -- with nothing given by name, only the star itself and a catch-all are left for it
    have hplace := (List.dropWhile_sublist _).subset hq
    rw [hnone, List.nil_append, List.mem_append, Option.mem_toList, Option.mem_toList] at hplace
    rcases hplace with hq | hq
    · rw [Option.mem_unique hq hp, hkind] at hpositional
      cases hpositional
    · rw [hrest q hq] at hpositional
      cases hpositional
  rest := hrest

/-- Only the last parameter may be a catch-all for named arguments. -/
theorem exists_rest {params : List ParamText} (h : params.Pairwise fun p _ => p.kind ≠ .varKeyword) :
    ∃ (before : List ParamText) (rest : Option ParamText), params = before ++ rest.toList ∧
      (∀ p ∈ before, p.kind ≠ .varKeyword) ∧ ∀ p ∈ rest, p.kind = .varKeyword := by
  induction params with
  | nil => exact ⟨[], none, rfl, by simp, by simp⟩
  | cons p params ih =>
    obtain ⟨hp, hparams⟩ := List.pairwise_cons.1 h
    by_cases hkind : p.kind = .varKeyword
    · have hnil : params = [] := List.eq_nil_iff_forall_not_mem.2 fun q hq => hp q hq hkind
      exact ⟨[], some p, by simp [hnil], by simp, by simpa using hkind⟩
    · obtain ⟨before, rest, rfl, hbefore, hrest⟩ := ih hparams
      exact ⟨p :: before, rest, rfl, List.forall_mem_cons.2 ⟨hkind, hbefore⟩, hrest⟩

/-- Only one parameter may be a star. -/
theorem exists_star {params : List ParamText}
    (h : params.Pairwise fun p q => startsNamed p.kind = true → startsNamed q.kind = false) :
    ∃ (front : List ParamText) (star : Option ParamText) (named : List ParamText),
      params = front ++ star.toList ++ named ∧ (∀ p ∈ front, startsNamed p.kind = false) ∧
      (∀ p ∈ star, startsNamed p.kind = true) ∧ (∀ p ∈ named, startsNamed p.kind = false) ∧
      (named ≠ [] → star ≠ none) := by
  induction params with
  | nil => exact ⟨[], none, [], rfl, by simp, by simp, by simp, by simp⟩
  | cons p params ih =>
    obtain ⟨hp, hparams⟩ := List.pairwise_cons.1 h
    by_cases hstar : startsNamed p.kind = true
    · exact ⟨[], some p, params, by simp, by simp, by simpa using hstar, fun q hq => hp q hq hstar,
        by simp⟩
    · obtain ⟨front, star, named, rfl, hfront, hstars, hnamed, hne⟩ := ih hparams
      exact ⟨p :: front, star, named, rfl, List.forall_mem_cons.2 ⟨Bool.eq_false_iff.2 hstar, hfront⟩,
        hstars, hnamed, hne⟩

end Layout

/-- **A signature has a layout.** -/
theorem IsSignature.exists_layout {optional : ParamText → Prop} {params : List ParamText}
    (h : IsSignature optional params) : ∃ l : Layout, l.params = params ∧ l.Fits optional := by
  obtain ⟨before, rest, hbefore, hkeyword, hrest⟩ := Layout.exists_rest h.last
  have hstars := h.star
  rw [hbefore, List.pairwise_append] at hstars
  obtain ⟨front, star, named, hfront, hplain, hstar, hnamed, hne⟩ := Layout.exists_star hstars.1
  have hparams : (⟨front, star, named, rest⟩ : Layout).params = params := by
    rw [hbefore, hfront]
    rfl
  subst hfront
  refine ⟨_, hparams, Layout.fits_of_isSignature (hparams ▸ h) ?_ hstar ?_ hne hrest⟩
  · exact fun p hp => ⟨hkeyword p (by simp [show p ∈ front from hp]), hplain p hp⟩
  · intro p (hp : p ∈ named)
    have hnotKeyword := hkeyword p (by simp [hp])
    have hnotStar := hnamed p hp
    have hnotSlash : p.kind ≠ .positionalOnlyMarker := by
      intro hkind
      obtain ⟨s, hs⟩ := Option.ne_none_iff_exists'.1 (hne (List.ne_nil_of_mem hp))
      have hslash := h.slash
      rw [hbefore, List.pairwise_append, List.pairwise_append] at hslash
      have hstarts := (hslash.1.2.2 s (by simp [hs]) p hp hkind).2
      rw [hstar s hs] at hstarts
      cases hstarts
    cases hkind : p.kind with
    | positional => rfl
    | varKeyword => exact absurd hkind hnotKeyword
    | positionalOnlyMarker => exact absurd hkind hnotSlash
    | keywordOnlyMarker | varPositional =>
      rw [hkind] at hnotStar
      cases hnotStar

end TypedStubs
