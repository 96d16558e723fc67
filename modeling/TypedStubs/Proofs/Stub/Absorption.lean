import TypedStubs.Proofs.Stub.Insertion

/-! # A merge absorbs a second one

What a step of a merge leaves covers the parameter of the step (`MergesTo.covers`).  The one name that a
step can take away is that of a lone star which gives its place to a catch-all.  A marker has no name,
so nothing that was covered is uncovered (`Covers.mergesTo`), and a second merge finds every generated
parameter covered (`StubFunction.merge_absorbs`).

Only the star that a catch-all would replace matters, so this is what the steps are shown to keep
(`StarUnnamed`); the generated parameters may be any.
-/
namespace TypedStubs

open Syntax (ParamKind)

variable {params more : List ParamText} {namedOnly : Bool} {p q : ParamText}

/-! ### The star that may be replaced -/

/-- Whether the star that a catch-all would take the place of has no name. -/
def StarUnnamed (params : List ParamText) : Prop :=
  ∀ star, replacedStar? params = some star → star.kind = .keywordOnlyMarker → star.name = ""

theorem MarkersUnnamed.star (h : MarkersUnnamed params) : StarUnnamed params := by
  intro star hstar hlone
  have hmem : star ∈ params := (List.takeWhile_sublist _).subset (List.mem_of_find?_eq_some hstar)
  exact h star hmem (by rw [ParamText.isMarker, hlone]; rfl)

theorem StarUnnamed.of_eq (h : StarUnnamed params) (heq : replacedStar? more = replacedStar? params) :
    StarUnnamed more :=
  fun star hstar => h star (heq ▸ hstar)

/-- The star is looked for behind what is no catch-all for named arguments. -/
theorem replacedStar?_append {front : List ParamText} (h : ∀ q ∈ front, q.kind ≠ .varKeyword)
    (rest : List ParamText) :
    replacedStar? (front ++ rest) = (front.find? (startsNamed ·.kind)).or (replacedStar? rest) := by
  rw [replacedStar?, List.takeWhile_append_of_pos (by simpa using h), List.find?_append]
  rfl

theorem replacedStar?_append_plain {plain : List ParamText}
    (h : ∀ q ∈ plain, q.kind ≠ .varKeyword ∧ startsNamed q.kind = false) (rest : List ParamText) :
    replacedStar? (plain ++ rest) = replacedStar? rest := by
  have hfind : plain.find? (startsNamed ·.kind) = none := by simpa using fun q hq => (h q hq).2
  rw [replacedStar?_append fun q hq => (h q hq).1, hfind, Option.none_or]

theorem replacedStar?_cons_of_startsNamed (rest : List ParamText) (h : startsNamed p.kind = true) :
    replacedStar? (p :: rest) = some p := by
  have hkeyword : p.kind ≠ .varKeyword := by
    intro hkind
    simp [hkind, startsNamed] at h
  simp [replacedStar?, hkeyword, h]

theorem replacedStar?_cons_of_not (rest : List ParamText) (hkeyword : p.kind ≠ .varKeyword)
    (h : startsNamed p.kind = false) : replacedStar? (p :: rest) = replacedStar? rest := by
  simp [replacedStar?, hkeyword, h]

/-- A star that may be replaced stays without a name: what is added before it is no star, and a star
that is added has no name. -/
theorem MergesTo.starUnnamed (h : MergesTo params namedOnly p more)
    (hflag : startsNamed p.kind = true → namedOnly = true) (hunnamed : StarUnnamed params) :
    StarUnnamed more := by
  cases h with
  | covered => exact hunnamed
  | varKeyword hnew hkind =>
    have hnone := kind_ne_of_not_covers hnew (by rw [hkind]; rfl)
    rw [hkind] at hnone
    have hbare := replacedStar?_append hnone []
    rw [List.append_nil] at hbare
    refine hunnamed.of_eq ?_
    rw [hbare, replacedStar?_append hnone]
    simp [replacedStar?, hkind]
  | varPositional hnew hkind =>
    obtain ⟨plain, after, hplain, -, hmore⟩ := insertVarPositional_eq params p
    -- the first star is now the catch-all, which is no marker
    intro star hstar hlone
    rw [hmore, replacedStar?_append_plain hplain,
      replacedStar?_cons_of_startsNamed _ (by rw [hkind]; rfl)] at hstar
    obtain rfl := Option.some.inj hstar
    rw [hkind] at hlone
    cases hlone
  | byName =>
    have hbefore : ∀ q ∈ params.takeWhile (·.kind != .varKeyword), q.kind ≠ .varKeyword := by
      intro q hq
      simpa using List.mem_takeWhile_imp hq
    intro star hstar hlone
    rw [insertNamedOnly_eq, replacedStar?_append hbefore] at hstar
    change (replacedStar? params).or _ = some star at hstar
    -- a star that was there comes before the one that is added
    cases hold : replacedStar? params with
    | some old =>
      rw [hold, Option.some_or] at hstar
      exact hunnamed star (hold.trans hstar) hlone
    | none =>
      rw [hold, Option.none_or] at hstar
      obtain rfl := Option.some.inj hstar
      rfl
  | byPosition _ hkind hnamed =>
    obtain ⟨before, r, after, hr, hbefore, rfl, hmore⟩ := insertPositional_eq params p
    have hrkind : r.kind = p.kind := by rcases hr with rfl | ⟨-, rfl⟩ <;> rfl
    have hkeyword : r.kind ≠ .varKeyword := by
      intro h
      simp [isCatchAll, ← hrkind, h] at hkind
    have hplain : startsNamed r.kind = false := by
      rw [hrkind]
      simpa [hnamed] using hflag
    -- neither what it is put behind nor the new one is a star, so the same one is found
    refine hunnamed.of_eq ?_
    rw [hmore, replacedStar?_append_plain hbefore, replacedStar?_append_plain hbefore,
      replacedStar?_cons_of_not _ hkeyword hplain]

/-! ### Merging twice -/

/-- A parameter with a name stays. -/
theorem MergesTo.keeps_named (h : MergesTo params namedOnly p more) (hunnamed : StarUnnamed params)
    (hq : q ∈ params) (hne : q.name ≠ "") : q ∈ more :=
  (h.keeps hq).resolve_right fun ⟨hstar, hlone⟩ => hne (hunnamed q hstar hlone)

/-- What is covered stays so. -/
theorem Covers.mergesTo (hp : Covers params p) (h : MergesTo params namedOnly q more)
    (hunnamed : StarUnnamed params) : Covers more p := by
  rcases hp with hp | ⟨r, hr, hname⟩ | ⟨hcatch, r, hr, hkind⟩
  · exact .inl hp
  · by_cases hne : r.name = ""
    · exact .inl (hname ▸ hne)
    · exact .inr (.inl ⟨r, h.keeps_named hunnamed hr hne, hname⟩)
  · -- a catch-all is no lone star, so it stays
    rcases h.keeps hr with hr | ⟨-, hlone⟩
    · exact .inr (.inr ⟨hcatch, r, hr, hkind⟩)
    · rw [← hkind, hlone] at hcatch
      cases hcatch

/-- What is there after a merge was there before, or was missing and is generated, or is a star. -/
theorem mem_mergeParams {generated : List ParamText} {namedOnly : Bool} (hunnamed : StarUnnamed params)
    (hq : q ∈ mergeParams params namedOnly generated) :
    q ∈ params ∨ q = .star ∨ ∃ p ∈ generated, ¬ Covers params p ∧ (q = p ∨ q = p.withDots) := by
  induction generated generalizing params namedOnly with
  | nil => exact .inl hq
  | cons p rest ih =>
    have hstep := mergesTo_mergeParam params (namedOnly || startsNamed p.kind) p
    rcases ih (hstep.starUnnamed (by simp +contextual) hunnamed) hq with hq | hq | ⟨r, hr, hnew, heq⟩
    · rcases hstep.mem hq with hq | hq | ⟨hnew, heq⟩
      · exact .inl hq
      · exact .inr (.inl hq)
      · exact .inr (.inr ⟨p, List.mem_cons_self, hnew, heq.imp_right fun hdots => hdots.2.2⟩)
    · exact .inr (.inl hq)
    · exact .inr (.inr ⟨r, List.mem_cons_of_mem _ hr, fun h => hnew (h.mergesTo hstep hunnamed), heq⟩)

/-- A parameter with a name stays. -/
theorem mem_mergeParams_of_mem {generated : List ParamText} {namedOnly : Bool}
    (hunnamed : StarUnnamed params) (hq : q ∈ params) (hne : q.name ≠ "") :
    q ∈ mergeParams params namedOnly generated := by
  induction generated generalizing params namedOnly with
  | nil => exact hq
  | cons p rest ih =>
    have hstep := mergesTo_mergeParam params (namedOnly || startsNamed p.kind) p
    exact ih (hstep.starUnnamed (by simp +contextual) hunnamed) (hstep.keeps_named hunnamed hq hne)

theorem mergeParams_of_covers {generated : List ParamText} (h : ∀ p ∈ generated, Covers params p)
    (namedOnly : Bool) : mergeParams params namedOnly generated = params := by
  induction generated generalizing namedOnly with
  | nil => rfl
  | cons p rest ih =>
    obtain ⟨hp, hrest⟩ := List.forall_mem_cons.1 h
    rw [mergeParams, mergeParam_of_covers hp]
    exact ih hrest _

/-- After a merge, what was generated is covered, and what was covered is so still. -/
theorem covers_mergeParams {generated : List ParamText} (namedOnly : Bool)
    (hunnamed : StarUnnamed params) (hp : p ∈ generated ∨ Covers params p) :
    Covers (mergeParams params namedOnly generated) p := by
  induction generated generalizing params namedOnly with
  | nil => exact hp.resolve_left List.not_mem_nil
  | cons q rest ih =>
    have hstep := mergesTo_mergeParam params (namedOnly || startsNamed q.kind) q
    rw [mergeParams]
    refine ih _ (hstep.starUnnamed (by simp +contextual) hunnamed) ?_
    rcases hp with hp | hp
    · rcases List.mem_cons.1 hp with rfl | hp
      · exact .inr hstep.covers
      · exact .inl hp
    · exact .inr (hp.mergesTo hstep hunnamed)

end TypedStubs
