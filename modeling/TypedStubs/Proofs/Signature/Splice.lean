import TypedStubs.Proofs.Hint.Grammar
import TypedStubs.Proofs.Stub.Layout
import TypedStubs.Proofs.Stub.Markers
import TypedStubs.Proofs.Text.Pieces

/-! # Recovered parameters only add

A signature has the parameters that a function declares, those left out apart, and among them one block
of parameters that were recovered from documentation.  The block stands behind a star and before the
catch-all for named arguments, and without it and the star that was added for it the declared ones are
left (`Splices`, `synthesize_splices`).

The names of a signature are distinct when those of its two sources are.  Both sources are compared by
the outlines of their parameters, in which a marker has no name.
-/
namespace TypedStubs

open Syntax (ParamKind)

/-! ### Outlines -/

/-- What a parameter is whatever its hint: its name, its kind, and an equality sign for a default. -/
def StubParameter.outline (p : StubParameter) : ParamText :=
  ⟨p.name, p.kind, if p.default.isSome then "=" else ""⟩

/-- What a declared parameter is whatever its hint; a marker is nothing but its kind. -/
def Parameter.outline (p : Parameter) : ParamText :=
  if p.isMarker then ⟨"", p.kind, ""⟩ else ⟨p.name, p.kind, if p.default.isSome then "=" else ""⟩

/-- Whether no name is there twice. -/
def DistinctNames (params : List ParamText) : Prop := params.Pairwise ParamText.NameApart

instance (params : List ParamText) : Decidable (DistinctNames params) :=
  inferInstanceAs (Decidable (params.Pairwise ParamText.NameApart))

theorem ParamText.NameApart.symm {p q : ParamText} (h : p.NameApart q) : q.NameApart p :=
  fun heq => heq.trans (h heq.symm)

theorem DistinctNames.perm {params more : List ParamText} (h : DistinctNames params)
    (hperm : params.Perm more) : DistinctNames more :=
  (hperm.pairwise_iff ParamText.NameApart.symm).1 h

namespace Signature

open Hint (bind_eq_ok)

variable {s : Settings} {index : SourceIndex} {owner : Option SourceClass} {f : SourceFunction}

/-! ### Declared parameters -/

/-- Whether a declared parameter goes into the stub. -/
def keeps (s : Settings) (p : ParamText) : Bool :=
  p.isMarker || !s.excludedParameters.contains p.name

theorem keeps_outline (s : Settings) (p : Parameter) :
    keeps s p.outline = (p.isMarker || !s.excludedParameters.contains p.name) := by
  unfold Parameter.outline
  cases hmarker : p.isMarker with
  | true => exact congrArg (· || _) hmarker
  | false => exact congrArg (· || _) hmarker

/-- Declared parameters keep their outlines. -/
theorem outline_declaredParams {isFirst : Bool} {declared : List Parameter}
    {params : List StubParameter} (h : declaredParams s index owner isFirst declared = .ok params) :
    params.map StubParameter.outline = (declared.map Parameter.outline).filter (keeps s) := by
  induction declared generalizing isFirst params with
  | nil =>
    obtain rfl := Except.ok.inj h
    rfl
  | cons d rest ih =>
    unfold declaredParams at h
    split at h
    · next hmarker =>
      obtain ⟨more, hmore, h⟩ := bind_eq_ok.1 h
      obtain rfl := Except.ok.inj h
      rw [List.map_cons, List.map_cons, List.filter_cons_of_pos (by simp [keeps_outline, hmarker]),
        ih hmore]
      simp [StubParameter.outline, Parameter.outline, StubParameter.marker, hmarker]
    · next hmarker =>
      split at h
      · next hexcluded =>
        rw [List.map_cons,
          List.filter_cons_of_neg (by simpa [keeps_outline, hmarker] using hexcluded)]
        exact ih h
      · next hkept =>
        obtain ⟨hint, -, h⟩ := bind_eq_ok.1 h
        obtain ⟨more, hmore, h⟩ := bind_eq_ok.1 h
        obtain rfl := Except.ok.inj h
        rw [List.map_cons, List.map_cons,
          List.filter_cons_of_pos (by simpa [keeps_outline, hmarker] using hkept), ih hmore]
        simp [StubParameter.outline, Parameter.outline, hmarker]

theorem ownParams_eq_ok {own : List StubParameter} :
    ownParams s index f owner = .ok own ↔ ∃ declared,
      declaredParams s index owner true f.params = .ok declared ∧
        own = dropIdleStars (dropLeadingSlashes declared) := by
  refine bind_eq_ok.trans (exists_congr fun declared => and_congr_right fun _ => ?_)
  exact ⟨fun h => (Except.ok.inj h).symm, fun h => congrArg Except.ok h.symm⟩

theorem outline_ownParams {own : List StubParameter} (h : ownParams s index f owner = .ok own) :
    (own.map StubParameter.outline).Sublist (f.params.map Parameter.outline) := by
  obtain ⟨declared, hdeclared, rfl⟩ := ownParams_eq_ok.1 h
  have hdropped := (dropIdleStars_sublist (dropLeadingSlashes declared)).trans
    (List.dropWhile_sublist _)
  refine (hdropped.map StubParameter.outline).trans ?_
  rw [outline_declaredParams hdeclared]
  exact List.filter_sublist

/-! ### Recovered parameters -/

/-- The constructor whose parameters a function documents. -/
def documentedConstructor? (s : Settings) (index : SourceIndex) (f : SourceFunction) :
    Option SourceFunction := do
  constructor? s index (← referencedClass? s index (← documentedReference? s index f))

/-- The parameters that a function documents and does not declare. -/
def undeclared (s : Settings) (index : SourceIndex) (f : SourceFunction) : List StubParameter :=
  (documentedParams s index f).filter fun p => !f.params.any (·.name == p.name)

theorem recoveredParam?_eq_some {c : SourceClass} {d : Parameter} {p : StubParameter}
    (h : recoveredParam? s index c d = some p) :
    d.isMarker = false ∧ p.name = d.name ∧ p.kind = .positional := by
  unfold recoveredParam? at h
  split at h
  · cases h
  · next hplain =>
    obtain ⟨hint, -, rfl⟩ := Option.map_eq_some_iff.1 h
    simp only [Bool.or_eq_true, not_or, Bool.not_eq_true] at hplain
    exact ⟨hplain.1.1, rfl, rfl⟩

/-- What is documented is what is recovered from a constructor. -/
theorem documentedParams_cases (s : Settings) (index : SourceIndex) (f : SourceFunction) :
    documentedParams s index f = [] ∨ ∃ c, ∃ init ∈ documentedConstructor? s index f,
      documentedParams s index f = (init.params.drop 1).filterMap (recoveredParam? s index c) := by
  simp only [documentedParams, documentedConstructor?]
  split
  · next c init hfound =>
    obtain ⟨r, hr, hfound⟩ := Option.bind_eq_some_iff.1 hfound
    obtain ⟨c, hc, hfound⟩ := Option.bind_eq_some_iff.1 hfound
    obtain ⟨init, hinit, hfound⟩ := Option.bind_eq_some_iff.1 hfound
    obtain ⟨rfl, rfl⟩ := Prod.mk.inj (Option.some.inj hfound)
    exact .inr ⟨_, _, by simp [hr, hc, hinit], rfl⟩
  · exact .inl rfl

theorem kind_of_mem_documentedParams {p : StubParameter} (h : p ∈ documentedParams s index f) :
    p.kind = .positional := by
  rcases documentedParams_cases s index f with hnil | ⟨c, init, -, heq⟩
  · rw [hnil] at h
    cases h
  · rw [heq] at h
    obtain ⟨d, -, hd⟩ := List.mem_filterMap.1 h
    exact (recoveredParam?_eq_some hd).2.2

theorem distinctNames_documentedParams
    (h : ∀ init ∈ documentedConstructor? s index f, DistinctNames (init.params.map Parameter.outline)) :
    DistinctNames ((documentedParams s index f).map StubParameter.outline) := by
  rcases documentedParams_cases s index f with hnil | ⟨c, init, hinit, heq⟩
  · rw [hnil]
    exact .nil
  · rw [heq, DistinctNames, List.pairwise_map, List.pairwise_filterMap]
    have hdropped := (List.pairwise_map.1 (h init hinit)).sublist (List.drop_sublist 1 _)
    refine hdropped.imp fun {d e} hapart p hp q hq => ?_
    obtain ⟨hd, hdname, -⟩ := recoveredParam?_eq_some hp
    obtain ⟨he, hename, -⟩ := recoveredParam?_eq_some hq
    simpa [ParamText.NameApart, Parameter.outline, StubParameter.outline, hd, he, hdname, hename]
      using hapart

/-- What is not declared has a name that no declared parameter has in the signature. -/
theorem nameApart_undeclared {own : List StubParameter} (h : ownParams s index f owner = .ok own)
    {p q : StubParameter} (hp : p ∈ own) (hq : q ∈ undeclared s index f) :
    p.outline.NameApart q.outline := by
  intro heq
  obtain ⟨d, hd, houtline⟩ :=
    List.mem_map.1 ((outline_ownParams h).subset (List.mem_map_of_mem hp))
  have hname : p.name = d.outline.name := congrArg ParamText.name houtline.symm
  -- a marker has no name in the signature, whatever sign the function has for it
  by_cases hmarker : d.isMarker = true
  · simpa [StubParameter.outline, Parameter.outline, hmarker] using hname
  · have hdeclared : d.name = q.name := by
      simpa [Parameter.outline, hmarker, show p.name = q.name from heq] using hname.symm
    have hnot := (List.mem_filter.1 hq).2
    rw [Bool.not_eq_true', List.any_eq_false] at hnot
    exact absurd (beq_iff_eq.2 hdeclared) (hnot d hd)

/-! ### The splice -/

/-- Whether further parameters are spliced in as ones that are given by name only: those in `before` and
perhaps a star stand before them, and those in `behind` stand behind them. -/
structure Splices (before star further behind : List StubParameter) : Prop where
  /-- What is added beside them is a star or nothing. -/
  added : star = [] ∨ star = [.marker .keywordOnlyMarker]
  /-- A star is added for them only, and only when there is none. -/
  needed : star ≠ [] → further ≠ [] ∧ ∀ p ∈ before, isStar p.kind = false
  /-- They stand behind a star. -/
  behindStar : further ≠ [] → ∃ p ∈ before ++ star, isStar p.kind = true
  /-- They stand before any catch-all for named arguments. -/
  front : ∀ p ∈ before, p.kind ≠ .varKeyword
  /-- What stands right behind them is that catch-all. -/
  back : ∀ p ∈ behind.head?, p.kind = .varKeyword

/-- The star that further parameters need behind others. -/
def addedStar (before further : List StubParameter) : List StubParameter :=
  if further.isEmpty || before.any (isStar ·.kind) then [] else [.marker .keywordOnlyMarker]

section Splices

variable {before behind : List StubParameter} (hfront : ∀ p ∈ before, p.kind ≠ .varKeyword)
  (hback : ∀ p ∈ behind.head?, p.kind = .varKeyword) (further : List StubParameter)

include hfront hback

theorem insertNamed_append : insertNamed (before ++ behind) further =
    before ++ addedStar before further ++ further ++ behind := by
  have hpos : ∀ p ∈ before, (p.kind != .varKeyword) = true := fun p hp => bne_iff_ne.2 (hfront p hp)
  have hspan : behind.takeWhile (·.kind != .varKeyword) = [] ∧
      behind.dropWhile (·.kind != .varKeyword) = behind := by
    cases behind with
    | nil => exact ⟨rfl, rfl⟩
    | cons p rest => simp [hback p rfl]
  unfold insertNamed addedStar
  rw [List.takeWhile_append_of_pos hpos, List.dropWhile_append_of_pos hpos, hspan.1, hspan.2,
    List.append_nil]
  cases further with
  | nil => simp
  | cons p rest => simp

theorem splices_addedStar : Splices before (addedStar before further) further behind := by
  unfold addedStar
  split
  · next hidle =>
    refine ⟨.inl rfl, fun hne => absurd rfl hne, fun hfurther => ?_, hfront, hback⟩
    have hstar : before.any (isStar ·.kind) = true := by simpa [hfurther] using hidle
    simpa using hstar
  · next hneeded =>
    have hboth : further ≠ [] ∧ ∀ p ∈ before, isStar p.kind = false := by simpa using hneeded
    exact ⟨.inr rfl, fun _ => hboth,
      fun _ => ⟨_, List.mem_append_right _ List.mem_cons_self, rfl⟩, hfront, hback⟩

end Splices

/-- Parameters are split by their first catch-all for named arguments. -/
theorem exists_split (own : List StubParameter) :
    ∃ before behind, own = before ++ behind ∧ (∀ p ∈ before, p.kind ≠ .varKeyword) ∧
      ∀ p ∈ behind.head?, p.kind = .varKeyword := by
  refine ⟨own.takeWhile (·.kind != .varKeyword), own.dropWhile (·.kind != .varKeyword),
    List.takeWhile_append_dropWhile.symm, fun p hp => ?_, fun p hp => ?_⟩
  · simpa using List.mem_takeWhile_imp hp
  · simpa using forall_head?_dropWhile (·.kind != .varKeyword) own p hp

/-- Names stay distinct in a splice. -/
theorem Splices.distinctNames {before star further behind : List StubParameter}
    (h : Splices before star further behind)
    (hown : DistinctNames ((before ++ behind).map StubParameter.outline))
    (hfurther : DistinctNames (further.map StubParameter.outline))
    (happart : ∀ p ∈ before ++ behind, ∀ q ∈ further, p.outline.NameApart q.outline) :
    DistinctNames ((before ++ star ++ further ++ behind).map StubParameter.outline) := by
  have hjoined : DistinctNames ((before ++ behind ++ further).map StubParameter.outline) := by
    rw [List.map_append, DistinctNames, List.pairwise_append]
    refine ⟨hown, hfurther, fun a ha b hb => ?_⟩
    obtain ⟨p, hp, rfl⟩ := List.mem_map.1 ha
    obtain ⟨q, hq, rfl⟩ := List.mem_map.1 hb
    exact happart p hp q hq
  -- the order does not matter, and a star has no name
  have hstarred : DistinctNames ((star ++ (before ++ behind ++ further)).map StubParameter.outline) := by
    rcases h.added with rfl | rfl
    · exact hjoined
    · exact List.pairwise_cons.2 ⟨fun _ _ _ => rfl, hjoined⟩
  refine hstarred.perm (List.Perm.map _ (List.perm_iff_count.2 fun p => ?_))
  simp only [List.count_append]
  omega

theorem synthesize_eq_ok {params : List StubParameter} :
    synthesize s index f owner = .ok params ↔ ∃ own, ownParams s index f owner = .ok own ∧
      params = insertNamed own (undeclared s index f) := by
  refine bind_eq_ok.trans (exists_congr fun own => and_congr_right fun _ => ?_)
  exact ⟨fun h => (Except.ok.inj h).symm, fun h => congrArg Except.ok h.symm⟩

/-- Names are distinct in a signature when they are in its two sources. -/
theorem distinctNames_synthesize {params : List StubParameter}
    (hf : DistinctNames (f.params.map Parameter.outline))
    (hundeclared : DistinctNames ((undeclared s index f).map StubParameter.outline))
    (h : synthesize s index f owner = .ok params) :
    DistinctNames (params.map StubParameter.outline) := by
  obtain ⟨own, hown, rfl⟩ := synthesize_eq_ok.1 h
  obtain ⟨before, behind, rfl, hfront, hback⟩ := exists_split own
  rw [insertNamed_append hfront hback]
  exact (splices_addedStar hfront hback _).distinctNames (hf.sublist (outline_ownParams hown))
    hundeclared fun p hp q hq => nameApart_undeclared hown hp hq

/-- **Recovered parameters only add.**  Those that a function does not declare are spliced, in their
order, into the parameters of its own, and names stay distinct. -/
theorem synthesize_splices {params : List StubParameter}
    (hf : DistinctNames (f.params.map Parameter.outline))
    (hinit : ∀ init ∈ documentedConstructor? s index f,
      DistinctNames (init.params.map Parameter.outline))
    (h : synthesize s index f owner = .ok params) :
    ∃ before star behind, ownParams s index f owner = .ok (before ++ behind) ∧
      params = before ++ star ++ undeclared s index f ++ behind ∧
      Splices before star (undeclared s index f) behind ∧
      DistinctNames (params.map StubParameter.outline) := by
  obtain ⟨own, hown, hparams⟩ := synthesize_eq_ok.1 h
  obtain ⟨before, behind, rfl, hfront, hback⟩ := exists_split own
  rw [insertNamed_append hfront hback] at hparams
  have hundeclared : DistinctNames ((undeclared s index f).map StubParameter.outline) :=
    (distinctNames_documentedParams hinit).sublist (List.filter_sublist.map _)
  exact ⟨before, _, behind, hown, hparams, splices_addedStar hfront hback _,
    distinctNames_synthesize hf hundeclared h⟩

/-- A class whose constructor takes two values that its methods tell. -/
def line : SourceClass :=
  let method (name : String) (params : List Parameter) (returns : Option String) : SourceFunction :=
    ⟨name, "shapes.Line." ++ name, "shapes", [], none, params, returns, none, false⟩
  let receiver : Parameter := ⟨"self", .positional, none, none⟩
  let init := method "__init__"
    [receiver, ⟨"width", .positional, none, some "1.0"⟩, ⟨"label", .positional, none, some "''"⟩] none
  let accessors := [method "get_width" [receiver] (some "float"), method "get_label" [receiver] (some "str")]
  ⟨"Line", "shapes.Line", "shapes", [], none, [], [], [], init :: accessors⟩

/-- A function that passes named arguments on to the class, one of which it takes itself. -/
def plot : SourceFunction where
  name := "plot"
  qualified := "shapes.plot"
  module := "shapes"
  decorators := []
  docstring := some "Plot.\n\nOther Parameters\n----------------\n**kwargs : `.Line`"
  params := [⟨"label", .positional, none, none⟩, ⟨"kwargs", .varKeyword, none, none⟩]
  returnText := none
  inferredReturn := none
  isAsync := false

/-- The index of a module that has both. -/
def shapes : SourceIndex :=
  ⟨[⟨"shapes", "shapes.py", false, none, [], [.ofClass line, .ofFunction plot]⟩]⟩

theorem synthesize_splices_plot :
    (DistinctNames (plot.params.map Parameter.outline) ∧
      ∀ init ∈ documentedConstructor? .standard shapes plot,
        DistinctNames (init.params.map Parameter.outline)) ∧
    ∃ params, synthesize .standard shapes plot none = .ok params ∧
      params.map (·.render) = ["label", "*", "width: float = ...", "**kwargs"] ∧
      ∃ before star behind, ownParams .standard shapes plot none = .ok (before ++ behind) ∧
        params = before ++ star ++ undeclared .standard shapes plot ++ behind ∧
        Splices before star (undeclared .standard shapes plot) behind ∧
        DistinctNames (params.map StubParameter.outline) := by
  have hf : DistinctNames (plot.params.map Parameter.outline) := by decide +kernel
  have hinit : ∀ init ∈ documentedConstructor? .standard shapes plot,
      DistinctNames (init.params.map Parameter.outline) := by decide +kernel
  have hparams : synthesize .standard shapes plot none = .ok
      [⟨"label", .positional, none, none, false⟩, .marker .keywordOnlyMarker,
        ⟨"width", .positional, some (.name "float"), some "...", true⟩,
        ⟨"kwargs", .varKeyword, none, none, false⟩] := by decide +kernel
  exact ⟨⟨hf, hinit⟩, _, hparams, by decide +kernel, synthesize_splices hf hinit hparams⟩

end Signature
end TypedStubs
