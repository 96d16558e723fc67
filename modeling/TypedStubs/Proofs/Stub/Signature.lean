import TypedStubs.Proofs.Stub.Absorption
import TypedStubs.Proofs.Stub.Layout

/-! # Merging keeps signatures well formed

A merge works on the written parameters: it looks for the place of a missing one anew at every step.
On a layout the step is simple: one part gets one more parameter (`Layout.add`,
`Layout.Fits.mergeParam_eq`).  `Layout.Fits.add` is the step lemma: the layout fits still.  A merge is
two runs of such steps, one over what was generated before the star and one over the rest, so what is
generated on a side of the star is added on that side (`exists_merged`).

Whether a parameter has a default is read off its text, and a text with a quotation mark in a string may
be misread.  Of the parameters that are added with dots it is therefore not asked (`OptionalAfter`).
-/
namespace TypedStubs

open Syntax (ParamKind)

namespace Layout

variable {optional : ParamText → Prop} {l : Layout} {p q : ParamText} {namedOnly : Bool}

/-- A parameter as it is put behind those that are given by position. -/
def placed (l : Layout) (p : ParamText) : ParamText :=
  if !p.hasDefault && l.byPosition.any ParamText.hasDefault then p.withDots else p

/-- A layout with one more parameter. -/
def add (l : Layout) (namedOnly : Bool) (p : ParamText) : Layout :=
  match p.kind with
  | .varKeyword => { l with rest := some p }
  | .varPositional => { l with star := some p }
  | _ =>
    if namedOnly then { l with star := some (l.star.getD .star), byName := l.byName ++ [p] }
    else { l with byPosition := l.byPosition ++ [l.placed p] }

theorem add_of_not_catchAll (l : Layout) (hkind : isCatchAll p.kind = false) :
    l.add namedOnly p =
      if namedOnly then { l with star := some (l.star.getD .star), byName := l.byName ++ [p] }
      else { l with byPosition := l.byPosition ++ [l.placed p] } := by
  unfold add
  split
  · next h => simp [h, isCatchAll] at hkind
  · next h => simp [h, isCatchAll] at hkind
  · rfl

theorem placed_cases (l : Layout) (p : ParamText) : l.placed p = p ∨ l.placed p = p.withDots := by
  unfold placed
  split
  · exact .inr rfl
  · exact .inl rfl

@[simp] theorem placed_name (l : Layout) (p : ParamText) : (l.placed p).name = p.name := by
  rcases l.placed_cases p with h | h <;> simp [h]

@[simp] theorem placed_kind (l : Layout) (p : ParamText) : (l.placed p).kind = p.kind := by
  rcases l.placed_cases p with h | h <;> simp [h]

theorem Fits.takeWhile_params (h : l.Fits optional) :
    l.params.takeWhile (·.kind != .varKeyword) = l.byPosition ++ l.star.toList ++ l.byName := by
  rw [params, List.takeWhile_append_of_pos (by simpa using fun p hp => h.ne_varKeyword hp)]
  cases hrest : l.rest with
  | none => simp
  | some rest => simp [h.rest rest hrest]

theorem Fits.dropWhile_params (h : l.Fits optional) :
    l.params.dropWhile (·.kind != .varKeyword) = l.rest.toList := by
  rw [params, List.dropWhile_append_of_pos (by simpa using fun p hp => h.ne_varKeyword hp)]
  cases hrest : l.rest with
  | none => simp
  | some rest => simp [h.rest rest hrest]

/-- Behind what is given by position stands a star, a catch-all or nothing. -/
theorem Fits.head_behind (h : l.Fits optional) :
    ∀ q ∈ (l.star.toList ++ (l.byName ++ l.rest.toList)).head?,
      (startsNamed q.kind || q.kind == .varKeyword) = true := by
  intro q hq
  cases hstar : l.star with
  | some star =>
    rw [hstar] at hq
    obtain rfl := Option.some.inj hq
    simp [h.star star hstar]
  | none =>
    have hnone : l.byName = [] := h.byName_eq_nil hstar
    rw [hstar, hnone] at hq
    have hrest : q ∈ l.rest := by simpa using hq
    simp [h.rest q hrest]

theorem Fits.span_params (h : l.Fits optional) :
    (l.params.takeWhile fun q => !(startsNamed q.kind || q.kind == .varKeyword)) = l.byPosition ∧
    (l.params.dropWhile fun q => !(startsNamed q.kind || q.kind == .varKeyword)) =
      l.star.toList ++ (l.byName ++ l.rest.toList) := by
  have hplain : ∀ p ∈ l.byPosition, (!(startsNamed p.kind || p.kind == .varKeyword)) = true := by
    intro p hp
    simp [h.plain hp]
  have hhead := h.head_behind
  rw [params_eq, List.takeWhile_append_of_pos hplain, List.dropWhile_append_of_pos hplain]
  generalize l.star.toList ++ (l.byName ++ l.rest.toList) = behind at hhead ⊢
  cases behind with
  | nil => simp
  | cons q more =>
    have hq := hhead q rfl
    constructor
    · rw [List.takeWhile_cons_of_neg (by simp [hq]), List.append_nil]
    · rw [List.dropWhile_cons_of_neg (by simp [hq])]

theorem Fits.insertVarPositional_params (h : l.Fits optional) (p : ParamText) :
    insertVarPositional l.params p = ({ l with star := some p } : Layout).params := by
  have hplain : ∀ q ∈ l.byPosition, (!startsNamed q.kind) = true := by
    simpa using fun q hq => (h.plain hq).2
  unfold insertVarPositional
  simp only [h.takeWhile_params, h.dropWhile_params, List.append_assoc,
    List.takeWhile_append_of_pos hplain]
  cases hstar : l.star with
  | none => simp [params, h.byName_eq_nil hstar]
  | some star => simp [params, h.star star hstar]

theorem Fits.insertNamedOnly_params (h : l.Fits optional) (p : ParamText) :
    insertNamedOnly l.params p =
      ({ l with star := some (l.star.getD .star), byName := l.byName ++ [p] } : Layout).params := by
  have hplain : l.byPosition.any (startsNamed ·.kind) = false := by
    simpa using fun q hq => (h.plain hq).2
  unfold insertNamedOnly
  simp only [h.takeWhile_params, h.dropWhile_params, List.any_append, hplain]
  cases hstar : l.star with
  | none => simp [params, h.byName_eq_nil hstar]
  | some star => simp [params, h.star star hstar]

theorem Fits.insertPositional_params (h : l.Fits optional) (p : ParamText) :
    insertPositional l.params p =
      ({ l with byPosition := l.byPosition ++ [l.placed p] } : Layout).params := by
  unfold insertPositional
  simp only [h.span_params.1, h.span_params.2]
  simp [params, placed]

/-- A catch-all for named arguments is missing only when there is none. -/
theorem Fits.rest_eq_none (h : l.Fits optional) (hnew : ¬ Covers l.params p)
    (hkind : p.kind = .varKeyword) : l.rest = none := by
  rw [Option.eq_none_iff_forall_not_mem]
  intro r hr
  refine kind_ne_of_not_covers hnew (by rw [hkind]; rfl) r ?_ ((h.rest r hr).trans hkind.symm)
  simp [params, Option.mem_def.1 hr]

/-- A merge adds a missing parameter to the layout. -/
theorem Fits.mergeParam_eq (h : l.Fits optional) (hnew : ¬ Covers l.params p) (namedOnly : Bool) :
    mergeParam l.params namedOnly p = (l.add namedOnly p).params := by
  have hstep := mergesTo_mergeParam l.params namedOnly p
  generalize mergeParam l.params namedOnly p = more at hstep ⊢
  cases hstep with
  | covered hcovers => exact absurd hcovers hnew
  | varKeyword _ hkind =>
    simp [add, hkind, params, h.rest_eq_none hnew hkind]
  | varPositional _ hkind =>
    rw [h.insertVarPositional_params, add, hkind]
  | byName _ hkind hnamed =>
    rw [h.insertNamedOnly_params, add_of_not_catchAll l hkind, if_pos hnamed]
  | byPosition _ hkind hnamed =>
    rw [h.insertPositional_params, add_of_not_catchAll l hkind, if_neg (by simp [hnamed])]

/-! ### Layouts stay fit -/

/-- A parameter that is missing is no marker. -/
theorem isMarker_of_not_covers {params : List ParamText} (hnew : ¬ Covers params p)
    (hmarker : p.isMarker = true → p.name = "") : p.isMarker = false :=
  Bool.eq_false_iff.2 fun h => name_ne_empty_of_not_covers hnew (hmarker h)

theorem Fits.withRest (h : l.Fits optional) (hnone : l.rest = none) (hkind : p.kind = .varKeyword)
    (hapart : ∀ q ∈ l.params, q.name = p.name → p.name = "") :
    ({ l with rest := some p } : Layout).Fits optional := by
  have hparams : ({ l with rest := some p } : Layout).params = l.params ++ p :: [] := by
    simp [params, hnone]
  have hmarker : p.isMarker = true → p.name = "" := by simp [ParamText.isMarker, hkind]
  have hnamed : WellNamed (l.params ++ p :: []) :=
    .insert (by simpa using h.wellNamed) hmarker (by simpa using hapart)
  exact { h with wellNamed := hparams ▸ hnamed, rest := by simpa using hkind }

theorem Fits.withStar (h : l.Fits optional) (hkind : p.kind = .varPositional)
    (hapart : ∀ q ∈ l.params, q.name = p.name → p.name = "") :
    ({ l with star := some p } : Layout).Fits optional := by
  have hparams : ({ l with star := some p } : Layout).params =
      l.byPosition ++ p :: (l.byName ++ l.rest.toList) := by
    simp [params]
  -- the star that was there goes, and the new one comes in its place
  have hsub : (l.byPosition ++ (l.byName ++ l.rest.toList)).Sublist l.params := by
    rw [params_eq]
    exact (List.sublist_append_right _ _).append_left _
  have hmarker : p.isMarker = true → p.name = "" := by simp [ParamText.isMarker, hkind]
  have hnamed : WellNamed (l.byPosition ++ p :: (l.byName ++ l.rest.toList)) :=
    (h.wellNamed.sublist hsub).insert hmarker fun q hq => hapart q (hsub.subset hq)
  exact { h with
    wellNamed := hparams ▸ hnamed
    star := by simp [hkind, startsNamed]
    named := by simp
    lone := by simp [hkind] }

/-- Parameters are well named when a lone star is put among them where there is none. -/
theorem Fits.wellNamed_withLone (h : l.Fits optional) :
    WellNamed (l.byPosition ++ [l.star.getD .star] ++ l.byName ++ l.rest.toList) := by
  cases hstar : l.star with
  | some star => simpa [params, hstar] using h.wellNamed
  | none =>
    have hnamed : WellNamed (l.byPosition ++ (l.byName ++ l.rest.toList)) := by
      simpa [params, hstar] using h.wellNamed
    simpa using hnamed.insert (p := .star) (fun _ => rfl) fun _ _ _ => rfl

theorem Fits.withNamed (h : l.Fits optional) (hkind : p.kind = .positional)
    (hapart : ∀ q ∈ l.params, q.name = p.name → p.name = "") :
    ({ l with star := some (l.star.getD .star), byName := l.byName ++ [p] } : Layout).Fits optional := by
  have hmarker : p.isMarker = true → p.name = "" := by simp [ParamText.isMarker, hkind]
  have hstar : startsNamed (l.star.getD .star).kind = true ∧ ∀ name, (l.star.getD .star).name = name →
      (∀ q ∈ l.params, q.name = name → name = "") → name = "" := by
    cases hold : l.star with
    | none => exact ⟨rfl, fun name hname _ => hname.symm⟩
    | some star =>
      refine ⟨h.star star hold, fun name hname hall => hall star ?_ hname⟩
      simp [params, hold]
  have hnamed : WellNamed (l.byPosition ++ [l.star.getD .star] ++ l.byName ++ p :: l.rest.toList) := by
    refine h.wellNamed_withLone.insert hmarker fun q hq hname => ?_
    simp only [List.mem_append, List.mem_singleton] at hq
    rcases hq with ((hq | rfl) | hq) | hq
    · exact hapart q (by simp [params, hq]) hname
    · exact hstar.2 p.name hname hapart
    · exact hapart q (by simp [params, hq]) hname
    · exact hapart q (by rw [params]; exact List.mem_append_right _ hq) hname
  refine { h with wellNamed := ?_, star := ?_, byName := ?_, named := by simp, lone := by simp }
  · simpa [params] using hnamed
  · intro q hq
    exact Option.some.inj hq ▸ hstar.1
  · intro q hq
    rcases List.mem_append.1 hq with hq | hq
    · exact h.byName q hq
    · exact List.mem_singleton.1 hq ▸ hkind

theorem Fits.withPositional (h : l.Fits optional) (hkind : p.kind = .positional)
    (hapart : ∀ q ∈ l.params, q.name = p.name → p.name = "")
    (hdefaults : ∀ q ∈ l.byPosition, optional q → optional p) :
    ({ l with byPosition := l.byPosition ++ [p] } : Layout).Fits optional := by
  have hmarker : p.isMarker = true → p.name = "" := by simp [ParamText.isMarker, hkind]
  have hnamed : WellNamed (l.byPosition ++ p :: (l.star.toList ++ (l.byName ++ l.rest.toList))) :=
    .insert (params_eq l ▸ h.wellNamed) hmarker (params_eq l ▸ hapart)
  refine { h with wellNamed := ?_, byPosition := ?_, first := ?_, slash := ?_, defaults := ?_ }
  · simpa [params] using hnamed
  · intro q hq
    rcases List.mem_append.1 hq with hq | hq
    · exact h.byPosition q hq
    · exact .inl (List.mem_singleton.1 hq ▸ hkind)
  · intro q hq
    rw [List.head?_append] at hq
    cases hhead : l.byPosition.head? with
    | some r =>
      rw [hhead] at hq
      exact h.first q (hhead ▸ hq)
    | none =>
      rw [hhead] at hq
      obtain rfl := Option.some.inj hq
      exact hkind
  · rw [List.pairwise_append]
    refine ⟨h.slash, List.pairwise_singleton _ _, fun q _ r hr hslash => ?_⟩
    rw [List.mem_singleton.1 hr, hkind] at hslash
    cases hslash
  · rw [List.pairwise_append]
    refine ⟨h.defaults, List.pairwise_singleton _ _, fun q hq r hr _ _ hoptional => ?_⟩
    rw [List.mem_singleton.1 hr]
    exact hdefaults q hq hoptional

/-- How parameters come to count as having a default: those that show one do, and one that is added
with dots does. -/
structure Counts (optional : ParamText → Prop) (l : Layout) : Prop where
  /-- A default that is shown counts. -/
  shown : ∀ p : ParamText, p.hasDefault = true → optional p
  /-- What counts stands with one that shows its default. -/
  backed : ∀ q ∈ l.byPosition, optional q → l.byPosition.any ParamText.hasDefault = true

/-- Whether a generated parameter may be added: a marker has no name, dots count as a default, and
without them only a default that is shown does. -/
structure Addable (optional : ParamText → Prop) (p : ParamText) : Prop where
  /-- A marker has no name. -/
  marker : p.isMarker = true → p.name = ""
  /-- Dots count. -/
  dots : optional p.withDots
  /-- Nothing else does. -/
  plain : p.name ≠ "" → optional p → p.hasDefault = true

/-- What is added behind a default has one. -/
theorem optional_placed (hcounts : l.Counts optional) (hp : Addable optional p)
    (hq : q ∈ l.byPosition) (hoptional : optional q) : optional (l.placed p) := by
  rw [placed, hcounts.backed q hq hoptional]
  cases hdefault : p.hasDefault with
  | true => simpa using hcounts.shown p hdefault
  | false => simpa using hp.dots

/-- **Adding a missing parameter keeps a layout fit.** -/
theorem Fits.add (h : l.Fits optional) (hcounts : l.Counts optional) (hp : Addable optional p)
    (hnew : ¬ Covers l.params p) (namedOnly : Bool) : (l.add namedOnly p).Fits optional := by
  have hapart : ∀ q ∈ l.params, q.name = p.name → p.name = "" :=
    fun q hq hname => absurd hname (name_ne_of_not_covers hnew q hq)
  have hmarker := isMarker_of_not_covers hnew hp.marker
  cases hkind : p.kind with
  | positionalOnlyMarker | keywordOnlyMarker => simp [ParamText.isMarker, hkind] at hmarker
  | varKeyword =>
    simp only [Layout.add, hkind]
    exact h.withRest (h.rest_eq_none hnew hkind) hkind hapart
  | varPositional =>
    simp only [Layout.add, hkind]
    exact h.withStar hkind hapart
  | positional =>
    rw [add_of_not_catchAll l (by rw [hkind]; rfl)]
    split
    · exact h.withNamed hkind hapart
    · refine h.withPositional (by simpa using hkind) (by simpa using hapart) fun q hq hoptional => ?_
      exact optional_placed hcounts hp hq hoptional

/-- Adding a parameter changes what is given by position by one at its end, or not at all. -/
theorem add_byPosition (l : Layout) (namedOnly : Bool) (p : ParamText) :
    (l.add namedOnly p).byPosition = l.byPosition ∨
      namedOnly = false ∧ (l.add namedOnly p).byPosition = l.byPosition ++ [l.placed p] := by
  unfold add
  split
  · exact .inl rfl
  · exact .inl rfl
  · cases namedOnly
    · exact .inr ⟨rfl, rfl⟩
    · exact .inl rfl

/-- So it does with what is given by name. -/
theorem add_byName (l : Layout) (namedOnly : Bool) (p : ParamText) :
    (l.add namedOnly p).byName = l.byName ∨
      namedOnly = true ∧ (l.add namedOnly p).byName = l.byName ++ [p] := by
  unfold add
  split
  · exact .inl rfl
  · exact .inl rfl
  · cases namedOnly
    · exact .inl rfl
    · exact .inr ⟨rfl, rfl⟩

theorem Counts.add (hcounts : l.Counts optional) (hp : Addable optional p) (hnew : ¬ Covers l.params p)
    (namedOnly : Bool) : (l.add namedOnly p).Counts optional := by
  refine ⟨hcounts.shown, fun q hq hoptional => ?_⟩
  rcases l.add_byPosition namedOnly p with heq | ⟨-, heq⟩
  · rw [heq] at hq ⊢
    exact hcounts.backed q hq hoptional
  rw [heq] at hq ⊢
  rw [List.any_append, Bool.or_eq_true]
  rcases List.mem_append.1 hq with hq | hq
  · exact .inl (hcounts.backed q hq hoptional)
  obtain rfl := List.mem_singleton.1 hq
  by_cases hany : l.byPosition.any ParamText.hasDefault = true
  · exact .inl hany
  · -- nothing shows a default, so no dots were put
    have hplain : l.placed p = p := by simp [placed, hany]
    rw [hplain] at hoptional ⊢
    have hdefault := hp.plain (name_ne_empty_of_not_covers hnew) hoptional
    exact .inr (by simp [hdefault])

/-! ### Many parameters -/

/-- What a layout becomes when parameters are added, all of them by position or all by name. -/
structure GrowsBy (optional : ParamText → Prop) (namedOnly : Bool) (generated : List ParamText)
    (l more : Layout) : Prop where
  /-- It fits still. -/
  fits : more.Fits optional
  /-- What counts as a default still does so. -/
  counts : more.Counts optional
  /-- What it covers it covers still. -/
  covers : ∀ p, Covers l.params p → Covers more.params p
  /-- What is given by position is old, or new and given by position. -/
  byPosition : ∀ q ∈ more.byPosition, q ∈ l.byPosition ∨
    namedOnly = false ∧ ∃ p ∈ generated, q = p ∨ q = p.withDots
  /-- What is given by name is old, or new and given by name. -/
  byName : ∀ q ∈ more.byName, q ∈ l.byName ∨ namedOnly = true ∧ q ∈ generated

theorem GrowsBy.trans {generated further : List ParamText} {more most : Layout}
    (h : GrowsBy optional namedOnly generated l more)
    (h' : GrowsBy optional namedOnly further more most) :
    GrowsBy optional namedOnly (generated ++ further) l most where
  fits := h'.fits
  counts := h'.counts
  covers := fun p hp => h'.covers p (h.covers p hp)
  byPosition := by
    intro q hq
    rcases h'.byPosition q hq with hq | ⟨hflag, p, hp, heq⟩
    · rcases h.byPosition q hq with hq | ⟨hflag, p, hp, heq⟩
      · exact .inl hq
      · exact .inr ⟨hflag, p, List.mem_append_left _ hp, heq⟩
    · exact .inr ⟨hflag, p, List.mem_append_right _ hp, heq⟩
  byName := by
    intro q hq
    rcases h'.byName q hq with hq | ⟨hflag, hq⟩
    · rcases h.byName q hq with hq | ⟨hflag, hq⟩
      · exact .inl hq
      · exact .inr ⟨hflag, List.mem_append_left _ hq⟩
    · exact .inr ⟨hflag, List.mem_append_right _ hq⟩

/-- One parameter makes a layout grow. -/
theorem Fits.exists_step (h : l.Fits optional) (hcounts : l.Counts optional) (namedOnly : Bool)
    (hp : ¬ Covers l.params p → Addable optional p) :
    ∃ more : Layout, mergeParam l.params namedOnly p = more.params ∧
      GrowsBy optional namedOnly [p] l more := by
  by_cases hnew : Covers l.params p
  · rw [mergeParam_of_covers hnew]
    exact ⟨l, rfl, h, hcounts, fun _ h => h, fun q hq => .inl hq, fun q hq => .inl hq⟩
  · have heq := h.mergeParam_eq hnew namedOnly
    refine ⟨l.add namedOnly p, heq, h.add hcounts (hp hnew) hnew namedOnly,
      hcounts.add (hp hnew) hnew namedOnly, fun q hq => ?_, fun q hq => ?_, fun q hq => ?_⟩
    · exact heq ▸ hq.mergesTo (mergesTo_mergeParam l.params namedOnly p) h.wellNamed.1.star
    · rcases l.add_byPosition namedOnly p with heq | ⟨hflag, heq⟩
      · exact .inl (heq ▸ hq)
      · rw [heq, List.mem_append, List.mem_singleton] at hq
        exact hq.imp_right fun hq => ⟨hflag, p, List.mem_singleton_self p, by
          rw [hq]
          exact l.placed_cases p⟩
    · rcases l.add_byName namedOnly p with heq | ⟨hflag, heq⟩
      · exact .inl (heq ▸ hq)
      · rw [heq, List.mem_append] at hq
        exact hq.imp_right fun hq => ⟨hflag, hq⟩

/-- So do many. -/
theorem Fits.exists_growsBy (h : l.Fits optional) (hcounts : l.Counts optional)
    (namedOnly : Bool) (generated : List ParamText)
    (hgenerated : ∀ p ∈ generated, ¬ Covers l.params p → Addable optional p) :
    ∃ more : Layout, generated.foldl (mergeParam · namedOnly ·) l.params = more.params ∧
      GrowsBy optional namedOnly generated l more := by
  induction generated generalizing l with
  | nil => exact ⟨l, rfl, h, hcounts, fun _ h => h, fun q hq => .inl hq, fun q hq => .inl hq⟩
  | cons p rest ih =>
    obtain ⟨hp, hrest⟩ := List.forall_mem_cons.1 hgenerated
    obtain ⟨next, hstep, hnext⟩ := h.exists_step hcounts namedOnly hp
    -- what is missing later on was missing from the start
    have hlater : ∀ q ∈ rest, ¬ Covers next.params q → Addable optional q :=
      fun q hq hnew => hrest q hq (mt (hnext.covers q) hnew)
    obtain ⟨more, hrun, hmore⟩ := ih hnext.fits hnext.counts hlater
    exact ⟨more, by rw [List.foldl_cons, hstep, hrun], hnext.trans hmore⟩

end Layout

/-! ### Whole signatures -/

variable {params generated : List ParamText} {p q : ParamText}

/-- A merge adds what stands before the star by position, and the rest by name. -/
theorem mergeParams_eq (params generated : List ParamText) : mergeParams params false generated =
    (generated.dropWhile (!startsNamed ·.kind)).foldl (mergeParam · true ·)
      ((beforeStar generated).foldl (mergeParam · false ·) params) := by
  -- behind a star the flag stays set
  have hnamed (params generated : List ParamText) : mergeParams params true generated =
      generated.foldl (mergeParam · true ·) params := by
    induction generated generalizing params with
    | nil => rfl
    | cons p rest ih => exact ih _
  induction generated generalizing params with
  | nil => rfl
  | cons p rest ih =>
    rw [mergeParams]
    cases hstar : startsNamed p.kind with
    | true => simp [beforeStar, hstar, hnamed]
    | false => simp [beforeStar, hstar, ih]

/-- Parameters of one name are the same in a signature. -/
theorem IsSignature.eq_of_name {optional : ParamText → Prop} (h : IsSignature optional params)
    (hp : p ∈ params) (hq : q ∈ params) (hname : p.name = q.name) (hne : p.name ≠ "") : p = q := by
  by_contra hpq
  have hsymm : Std.Symm ParamText.NameApart := ⟨fun _ _ hpq heq => heq ▸ hpq heq.symm⟩
  exact hne (h.names.forall hp hq hpq hname)

/-- A signature has one catch-all of a kind. -/
theorem IsSignature.eq_of_isCatchAll {optional : ParamText → Prop} (h : IsSignature optional params)
    (hp : p ∈ params) (hq : q ∈ params) (hkind : p.kind = q.kind) (hcatch : isCatchAll p.kind = true) :
    p = q := by
  by_contra hpq
  have hsymm : Std.Symm fun p q : ParamText => ¬ (isCatchAll p.kind = true ∧ p.kind = q.kind) :=
    ⟨fun _ _ hpq hqp => hpq ⟨hqp.2 ▸ hqp.1, hqp.2.symm⟩⟩
  have hpairs : params.Pairwise fun p q => ¬ (isCatchAll p.kind = true ∧ p.kind = q.kind) := by
    refine (h.star.and h.last).imp ?_
    rintro p q ⟨hstar, hkeyword⟩ ⟨hcatch, hkind⟩
    have hpositional : p.kind = .varPositional := by simpa [isCatchAll, hkeyword] using hcatch
    have hnot := hstar (by rw [hpositional]; rfl)
    rw [← hkind, hpositional] at hnot
    cases hnot
  exact hpairs.forall hp hq hpq ⟨hcatch, hkind⟩

theorem withDots_ne (p : ParamText) : p.withDots ≠ p := by
  intro h
  have htext := congrArg (fun q : ParamText => q.text.toList.length) h
  simp only [ParamText.withDots, String.toList_append, List.length_append] at htext
  split at htext <;> simp at htext

/-- Whether a parameter counts as having a default after a merge: it shows one, or it is a generated one
that was added with dots. -/
def OptionalAfter (existing generated : List ParamText) (p : ParamText) : Prop :=
  p.hasDefault = true ∨ p ∉ existing ∧ ∃ q ∈ generated, p = q.withDots

/-- What is missing from a signature may be added. -/
theorem addable_of_mem (hgenerated : IsSignature (·.hasDefault = true) generated) (hp : p ∈ generated)
    (hnew : ¬ Covers params p) : Layout.Addable (OptionalAfter params generated) p where
  marker := hgenerated.markers p hp
  dots := .inr ⟨fun hmem => name_ne_of_not_covers hnew _ hmem rfl, p, hp, rfl⟩
  plain := by
    rintro hname (hdefault | ⟨-, q, hq, heq⟩)
    · exact hdefault
    · -- dots keep the name, so it would be its own copy with dots
      obtain rfl := hgenerated.eq_of_name hp hq (by rw [heq]; rfl) hname
      exact absurd heq.symm (withDots_ne p)

theorem Layout.Fits.imp {optional optional' : ParamText → Prop} {l : Layout} (h : l.Fits optional)
    (himp : ∀ p ∈ l.params, optional' p ↔ optional p) : l.Fits optional' := by
  refine { h with defaults := h.defaults.imp_of_mem fun hp hq hpq hpk hqk hoptional => ?_ }
  have hmem {r : ParamText} (hr : r ∈ l.byPosition) : r ∈ l.params := by simp [Layout.params, hr]
  exact (himp _ (hmem hq)).2 (hpq hpk hqk ((himp _ (hmem hp)).1 hoptional))

theorem optionalAfter_iff (hp : p ∈ params) :
    OptionalAfter params generated p ↔ p.hasDefault = true := by
  simp [OptionalAfter, hp]

/-- A signature that a generated one is merged into has a layout, in which what is new stands on the side
of the star where it was generated. -/
theorem exists_merged (he : IsSignature (·.hasDefault = true) params)
    (hg : IsSignature (·.hasDefault = true) generated) :
    ∃ l : Layout, mergeParams params false generated = l.params ∧
      l.Fits (OptionalAfter params generated) ∧
      (∀ q ∈ l.byPosition, q ∈ params ∨ ∃ p ∈ beforeStar generated, q = p ∨ q = p.withDots) ∧
      ∀ q ∈ l.byName, q ∈ params ∨ q ∈ generated.dropWhile (!startsNamed ·.kind) := by
  obtain ⟨l, rfl, hl⟩ := he.exists_layout
  have hfits : l.Fits (OptionalAfter l.params generated) := hl.imp fun p hp => optionalAfter_iff hp
  have hcounts : l.Counts (OptionalAfter l.params generated) := by
    refine ⟨fun p hp => .inl hp, fun q hq hoptional => List.any_eq_true.2 ⟨q, hq, ?_⟩⟩
    exact (optionalAfter_iff (by simp [Layout.params, hq])).1 hoptional
  obtain ⟨next, hnext, hfirst⟩ := hfits.exists_growsBy hcounts false (beforeStar generated)
    fun p hp hnew => addable_of_mem hg ((List.takeWhile_sublist _).subset hp) hnew
  obtain ⟨more, hmore, hsecond⟩ := hfirst.fits.exists_growsBy hfirst.counts true
    (generated.dropWhile (!startsNamed ·.kind)) fun p hp hnew =>
      addable_of_mem hg ((List.dropWhile_sublist _).subset hp) (mt (hfirst.covers p) hnew)
  refine ⟨more, by rw [mergeParams_eq, hnext, hmore], hsecond.fits, fun q hq => ?_, fun q hq => ?_⟩
  · rcases hsecond.byPosition q hq with hq | ⟨hflag, -⟩
    · rcases hfirst.byPosition q hq with hq | ⟨-, hp⟩
      · exact .inl (by simp [Layout.params, hq])
      · exact .inr hp
    · cases hflag
  · rcases hsecond.byName q hq with hq | ⟨-, hq⟩
    · rcases hfirst.byName q hq with hq | ⟨hflag, -⟩
      · exact .inl (by simp [Layout.params, hq])
      · cases hflag
    · exact .inr hq

/-- The names after a merge are those of both signatures, less those of catch-alls of which the first
signature has the kind. -/
theorem exists_name_iff (hunnamed : StarUnnamed params)
    (hg : IsSignature (·.hasDefault = true) generated) {name : String} (hne : name ≠ "") :
    (∃ p ∈ mergeParams params false generated, p.name = name) ↔
      (∃ p ∈ params, p.name = name) ∨ ∃ p ∈ generated, p.name = name ∧
        ¬ (isCatchAll p.kind = true ∧ ∃ q ∈ params, q.kind = p.kind) := by
  constructor
  · rintro ⟨q, hq, rfl⟩
    rcases mem_mergeParams hunnamed hq with hq | rfl | ⟨p, hp, hnew, heq⟩
    · exact .inl ⟨q, hq, rfl⟩
    · exact absurd rfl hne
    · refine .inr ⟨p, hp, by rcases heq with rfl | rfl <;> rfl, fun hcatch => hnew (.inr (.inr hcatch))⟩
  · rintro (⟨p, hp, rfl⟩ | ⟨p, hp, rfl, hold⟩)
    · exact ⟨p, mem_mergeParams_of_mem hunnamed hp hne, rfl⟩
    · rcases covers_mergeParams false hunnamed (.inl hp) with hempty | hname | ⟨hcatch, q, hq, hkind⟩
      · exact absurd (by simpa using hempty) hne
      · exact hname
      · -- the catch-all that is there is a generated one, so it is this one
        rcases mem_mergeParams hunnamed hq with hq | rfl | ⟨r, hr, -, heq⟩
        · exact absurd ⟨hcatch, q, hq, hkind⟩ hold
        · rw [← hkind] at hcatch
          cases hcatch
        · have hrkind : p.kind = r.kind := by rcases heq with rfl | rfl <;> exact hkind.symm
          obtain rfl := hg.eq_of_isCatchAll hp hr hrkind hcatch
          exact ⟨q, hq, by rcases heq with rfl | rfl <;> rfl⟩

/-- What is added by a merge stands before the star just when it was generated there. -/
theorem exists_generated (he : IsSignature (·.hasDefault = true) params)
    (hg : IsSignature (·.hasDefault = true) generated)
    (hq : q ∈ mergeParams params false generated) (hkind : q.kind = .positional) (hnew : q ∉ params) :
    ∃ p ∈ generated, (q = p ∨ q = p.withDots) ∧
      (q ∈ beforeStar (mergeParams params false generated) ↔ p ∈ beforeStar generated) := by
  obtain ⟨l, heq, hl, hposition, hname⟩ := exists_merged he hg
  have hne : q.name ≠ "" := by
    rcases mem_mergeParams he.markers.star hq with hq | rfl | ⟨p, -, hcovers, hp⟩
    · exact absurd hq hnew
    · cases hkind
    · have hpname := name_ne_empty_of_not_covers hcovers
      rcases hp with rfl | rfl <;> exact hpname
  rw [heq] at hq ⊢
  have hplace : q ∈ l.byPosition ∨ q ∈ l.byName := by
    simp only [Layout.params, List.mem_append, Option.mem_toList] at hq
    rcases hq with ((hq | hq) | hq) | hq
    · exact .inl hq
    · have hstar := hl.star q hq
      rw [hkind] at hstar
      cases hstar
    · exact .inr hq
    · have hrest := hl.rest q hq
      rw [hkind] at hrest
      cases hrest
  rcases hplace with hq | hq
  · obtain ⟨p, hp, hqp⟩ := (hposition q hq).resolve_left hnew
    refine ⟨p, (List.takeWhile_sublist _).subset hp, hqp, fun _ => hp, fun _ => ?_⟩
    rw [hl.beforeStar_params]
    exact List.mem_append_left _ hq
  · have hqg := (hname q hq).resolve_left hnew
    refine ⟨q, (List.dropWhile_sublist _).subset hqg, .inl rfl, fun h => ?_, fun h => ?_⟩
    · -- its name would be there twice
      obtain ⟨star, hstar⟩ := Option.ne_none_iff_exists'.1 (hl.named (List.ne_nil_of_mem hq))
      have hfirst : q ∈ l.byPosition := by simpa [hl.beforeStar_params, hstar] using h
      have hnames := hl.wellNamed.2
      rw [Layout.params_eq, List.pairwise_append] at hnames
      exact absurd (hnames.2.2 q hfirst q (by simp [hq]) rfl) hne
    · have hnames := hg.names
      rw [← List.takeWhile_append_dropWhile (p := (!startsNamed ·.kind)) (l := generated),
        List.pairwise_append] at hnames
      exact absurd (hnames.2.2 q h q hqg rfl) hne

/-- **A merge keeps signatures well formed and adds every parameter once.** -/
theorem StubFunction.merge_isSignature (e g : StubFunction)
    (he : IsSignature (·.hasDefault = true) e.params) (hg : IsSignature (·.hasDefault = true) g.params) :
    IsSignature (OptionalAfter e.params g.params) (e.merge g).params ∧
    (∀ name, name ≠ "" → ((∃ p ∈ (e.merge g).params, p.name = name) ↔
      (∃ p ∈ e.params, p.name = name) ∨ ∃ p ∈ g.params, p.name = name ∧
        ¬ (isCatchAll p.kind = true ∧ ∃ q ∈ e.params, q.kind = p.kind))) ∧
    ∀ q ∈ (e.merge g).params, q.kind = .positional → q ∉ e.params →
      ∃ p ∈ g.params, (q = p ∨ q = p.withDots) ∧
        (q ∈ beforeStar (e.merge g).params ↔ p ∈ beforeStar g.params) := by
  refine ⟨?_, fun name hne => exists_name_iff he.markers.star hg hne,
    fun q hq => exists_generated he hg hq⟩
  obtain ⟨l, heq, hl, -⟩ := exists_merged he hg
  simpa [merge, heq] using hl.isSignature

/-- The stub `def f(x: int = ..., *, z)` and the function `def f(y, x=1, *args, w, **kw)` have
well-formed signatures, and so has what a merge makes of them. -/
theorem StubFunction.merge_isSignature_star :
    let e : StubFunction := ⟨"f", [], false,
      [⟨"x", .positional, "x: int = ..."⟩, .star, ⟨"z", .positional, "z"⟩], ", ", none⟩
    let g : StubFunction := ⟨"f", [], false,
      [⟨"y", .positional, "y"⟩, ⟨"x", .positional, "x=1"⟩,
        ⟨"args", .varPositional, "*args"⟩, ⟨"w", .positional, "w"⟩,
        ⟨"kw", .varKeyword, "**kw"⟩], ", ", none⟩
    (e.merge g).params.map (·.text) = ["x: int = ...", "y=...", "*args", "z", "w", "**kw"] ∧
      IsSignature (OptionalAfter e.params g.params) (e.merge g).params := by
  intro e g
  exact ⟨by decide +kernel, (merge_isSignature e g (by decide +kernel) (by decide +kernel)).1⟩

end TypedStubs
