import Mathlib.Data.List.Forall2
import TypedStubs.Proofs.Stub.Insertion
import TypedStubs.Proofs.Stub.Written

/-! # A stub only grows

Emission adds to a stub and takes nothing away.  `StubItem.GrowsTo` says what an item may become: text
and attributes stay, a class gains members at its end, and a function gains parameters.  The one
change of what is there is a lone star that gives its place to a parameter that takes the remaining
positional arguments, and that parameter is one the module writes (`Scope.Writes`).

`mergeItem_growsTo` is the step: one merge makes items grow.  Every stage is a sequence of merges, so
the items of a finished stub grow out of those it was built on (`buildStub_growsTo`), each in its
place.
-/
namespace TypedStubs

open Syntax (ParamKind)

/-! ### What may become of parameters, functions and items -/

/-- Whether `q` may stand where `p` stood: as the same parameter, or, where a lone star stood, as one
of the `fresh` ones that take the remaining positional arguments. -/
def ParamText.StaysAs (fresh : ParamText → Prop) (p q : ParamText) : Prop :=
  q = p ∨ p.kind = .keywordOnlyMarker ∧ q.kind = .varPositional ∧ fresh q

/-- Whether a function only gained something: parameters, and a return annotation and decorators where
it had none. -/
structure StubFunction.GrowsTo (fresh : ParamText → Prop) (f g : StubFunction) : Prop where
  /-- The name stays. -/
  name : g.name = f.name
  /-- It stays asynchronous or not. -/
  isAsync : g.isAsync = f.isAsync
  /-- What stands between parameters stays. -/
  separator : g.separator = f.separator
  /-- A return annotation stays. -/
  returns : ∀ text, f.returns = some text → g.returns = some text
  /-- Decorators stay. -/
  decorators : f.decorators ≠ [] → g.decorators = f.decorators
  /-- Parameters stay, in their order. -/
  params : List.SublistForall₂ (ParamText.StaysAs fresh) f.params g.params

mutual
/-- Whether an item only gained something. -/
inductive StubItem.GrowsTo (fresh : ParamText → Prop) : StubItem → StubItem → Prop where
  | ofAttribute (a : StubAttribute) : StubItem.GrowsTo fresh (.ofAttribute a) (.ofAttribute a)
  | verbatim (text : String) : StubItem.GrowsTo fresh (.verbatim text) (.verbatim text)
  | ofFunction {f g : StubFunction} (h : f.GrowsTo fresh g) :
    StubItem.GrowsTo fresh (.ofFunction f) (.ofFunction g)
  | ofClass (head : StubClass) {items more : List StubItem} (h : ItemsGrowTo fresh items more) :
    StubItem.GrowsTo fresh (.ofClass head items) (.ofClass head more)

/-- Whether items only gained something, each in its place and others behind them. -/
inductive ItemsGrowTo (fresh : ParamText → Prop) : List StubItem → List StubItem → Prop where
  | nil (more : List StubItem) : ItemsGrowTo fresh [] more
  | cons {item grown : StubItem} {items more : List StubItem} (head : item.GrowsTo fresh grown)
    (tail : ItemsGrowTo fresh items more) : ItemsGrowTo fresh (item :: items) (grown :: more)
end

variable {fresh : ParamText → Prop}

instance : Std.Refl (ParamText.StaysAs fresh) := ⟨fun _ => .inl rfl⟩

/-- What took the place of a star is no star, so it stays itself from then on. -/
instance : IsTrans ParamText (ParamText.StaysAs fresh) where
  trans p q r hpq hqr := by
    rcases hpq with rfl | ⟨hp, hq, hfresh⟩
    · exact hqr
    · rcases hqr with rfl | ⟨hstar, _⟩
      · exact .inr ⟨hp, hq, hfresh⟩
      · rw [hq] at hstar
        cases hstar

theorem StubFunction.growsTo_refl (f : StubFunction) : f.GrowsTo fresh f where
  name := rfl
  isAsync := rfl
  separator := rfl
  returns := fun _ h => h
  decorators := fun _ => rfl
  params := refl_of _ _

theorem StubFunction.GrowsTo.trans {f g k : StubFunction} (hfg : f.GrowsTo fresh g)
    (hgk : g.GrowsTo fresh k) : f.GrowsTo fresh k where
  name := hgk.name.trans hfg.name
  isAsync := hgk.isAsync.trans hfg.isAsync
  separator := hgk.separator.trans hfg.separator
  returns := fun text h => hgk.returns text (hfg.returns text h)
  decorators := by
    intro h
    have hg := hfg.decorators h
    exact (hgk.decorators (hg ▸ h)).trans hg
  params := IsTrans.trans _ _ _ hfg.params hgk.params

mutual
theorem StubItem.growsTo_refl : ∀ item : StubItem, item.GrowsTo fresh item
  | .ofAttribute a => .ofAttribute a
  | .verbatim text => .verbatim text
  | .ofFunction f => .ofFunction f.growsTo_refl
  | .ofClass head items => .ofClass head (itemsGrowTo_refl items)

theorem itemsGrowTo_refl : ∀ items : List StubItem, ItemsGrowTo fresh items items
  | [] => .nil []
  | item :: items => .cons item.growsTo_refl (itemsGrowTo_refl items)
end

mutual
theorem StubItem.GrowsTo.trans : ∀ {a b c : StubItem}, a.GrowsTo fresh b → b.GrowsTo fresh c →
    a.GrowsTo fresh c
  | _, _, _, .ofAttribute a, h => h
  | _, _, _, .verbatim text, h => h
  | _, _, _, .ofFunction hf, .ofFunction hg => .ofFunction (hf.trans hg)
  | _, _, _, .ofClass head hi, .ofClass _ hm => .ofClass head (hi.trans hm)

theorem ItemsGrowTo.trans : ∀ {as bs cs : List StubItem}, ItemsGrowTo fresh as bs →
    ItemsGrowTo fresh bs cs → ItemsGrowTo fresh as cs
  | _, _, cs, .nil _, _ => .nil cs
  | _, _, _, .cons hab htab, .cons hbc htbc => .cons (hab.trans hbc) (htab.trans htbc)
end

theorem ItemsGrowTo.append (items more : List StubItem) :
    ItemsGrowTo fresh items (items ++ more) := by
  induction items with
  | nil => exact .nil more
  | cons item items ih => exact .cons item.growsTo_refl ih

theorem ItemsGrowTo.length_le {items more : List StubItem} (h : ItemsGrowTo fresh items more) :
    items.length ≤ more.length := by
  induction items generalizing more with
  | nil => exact Nat.zero_le _
  | cons item items ih =>
    cases h with
    | cons head tail => exact Nat.succ_le_succ (ih tail)

theorem ItemsGrowTo.getElem {items more : List StubItem} (h : ItemsGrowTo fresh items more)
    (i : Nat) (hi : i < items.length) (hm : i < more.length) :
    items[i].GrowsTo fresh more[i] := by
  induction items generalizing more i with
  | nil => exact absurd hi (Nat.not_lt_zero i)
  | cons item items ih =>
    cases h with
    | cons head tail =>
      cases i with
      | zero => exact head
      | succ i => exact ih tail i (Nat.lt_of_succ_lt_succ hi) (Nat.lt_of_succ_lt_succ hm)

/-! ### One merge -/

/-- Where a catch-all for positional arguments was missing, the star that it takes the place of is a
lone one. -/
theorem insertVarPositional_stays {params : List ParamText} {p : ParamText}
    (hp : p.kind = .varPositional) (hfresh : fresh p)
    (hnone : ∀ q ∈ params, q.kind ≠ p.kind) :
    List.SublistForall₂ (ParamText.StaysAs fresh) params (insertVarPositional params p) := by
  obtain ⟨plain, after, -, hparams, hmore⟩ := insertVarPositional_eq params p
  rw [hmore, List.sublistForall₂_iff]
  cases hstar : replacedStar? params with
  | none =>
    rw [hstar, Option.toList_none, List.nil_append] at hparams
    rw [hparams]
    exact ⟨plain ++ after, List.forall₂_refl _, (List.sublist_cons_self p after).append_left plain⟩
  | some star =>
    rw [hstar, Option.toList_some, List.singleton_append] at hparams
    have hne : star.kind ≠ .varPositional := hp ▸ hnone star (by simp [hparams])
    have hkind : star.kind = .keywordOnlyMarker := by
      simpa [startsNamed, hne] using startsNamed_of_replacedStar? hstar
    rw [hparams]
    refine ⟨plain ++ p :: after, ?_, .refl _⟩
    exact List.rel_append (List.forall₂_refl _) (.cons (.inr ⟨hkind, hp, hfresh⟩) (List.forall₂_refl _))

theorem mergeParam_stays {params : List ParamText} (namedOnly : Bool) {p : ParamText}
    (hfresh : fresh p) :
    List.SublistForall₂ (ParamText.StaysAs fresh) params (mergeParam params namedOnly p) := by
  have hstep := mergesTo_mergeParam params namedOnly p
  generalize mergeParam params namedOnly p = more at hstep ⊢
  cases hstep with
  | covered => exact refl_of _ _
  | varKeyword => exact (List.sublist_append_left _ _).sublistForall₂
  | varPositional hnew hkind =>
    have hnone := kind_ne_of_not_covers hnew (by rw [hkind]; rfl)
    exact insertVarPositional_stays hkind hfresh hnone
  | byName =>
    rw [insertNamedOnly_eq]
    exact (sublist_insert _ params _).sublistForall₂
  | byPosition => exact (sublist_insert _ params [_]).sublistForall₂

theorem mergeParams_stays (params : List ParamText) (namedOnly : Bool)
    {generated : List ParamText} (hfresh : ∀ p ∈ generated, fresh p) :
    List.SublistForall₂ (ParamText.StaysAs fresh) params
      (mergeParams params namedOnly generated) := by
  induction generated generalizing params namedOnly with
  | nil => exact refl_of _ _
  | cons p rest ih =>
    obtain ⟨hp, hrest⟩ := List.forall_mem_cons.mp hfresh
    exact IsTrans.trans _ _ _ (mergeParam_stays _ hp) (ih _ _ hrest)

theorem StubFunction.growsTo_merge (f : StubFunction) {g : StubFunction}
    (hfresh : ∀ p ∈ g.params, fresh p) : f.GrowsTo fresh (f.merge g) where
  name := rfl
  isAsync := rfl
  separator := rfl
  returns := by
    intro text h
    simp [StubFunction.merge, h]
  decorators := by
    intro h
    simp [StubFunction.merge, h]
  params := mergeParams_stays _ _ hfresh

mutual
/-- Whether every parameter of an item is among the `fresh` ones. -/
def StubItem.IsFresh (fresh : ParamText → Prop) : StubItem → Prop
  | .ofFunction f => ∀ p ∈ f.params, fresh p
  | .ofClass _ items => AreFresh fresh items
  | .ofAttribute _ | .verbatim _ => True

/-- Whether every parameter of some items is among the `fresh` ones. -/
def AreFresh (fresh : ParamText → Prop) : List StubItem → Prop
  | [] => True
  | item :: items => item.IsFresh fresh ∧ AreFresh fresh items
end

theorem areFresh_iff {items : List StubItem} :
    AreFresh fresh items ↔ ∀ item ∈ items, item.IsFresh fresh := by
  induction items with
  | nil => simp [AreFresh]
  | cons item items ih => simp [AreFresh, ih]

theorem itemsGrowTo_changeFirst {f : StubItem → StubItem} (slot : StubItem → Bool)
    (new : StubItem) (hf : ∀ item : StubItem, item.GrowsTo fresh (f item)) (items : List StubItem) :
    ItemsGrowTo fresh items (changeFirst slot f new items) := by
  induction items with
  | nil => exact .nil _
  | cons item items ih =>
    unfold changeFirst
    split
    · exact .cons (hf item) (itemsGrowTo_refl items)
    · exact .cons item.growsTo_refl ih

mutual
theorem mergeInto_growsTo : ∀ (generated existing : StubItem), generated.IsFresh fresh →
    existing.GrowsTo fresh (mergeInto generated existing)
  | .ofClass _ members, .ofClass head items, h => by
    simpa only [mergeInto] using .ofClass head (mergeAll_growsTo members items h)
  | .ofFunction g, .ofFunction f, h => by
    simpa only [mergeInto] using .ofFunction (f.growsTo_merge h)
  | .ofClass _ _, .ofAttribute _, _ | .ofClass _ _, .ofFunction _, _
  | .ofClass _ _, .verbatim _, _ | .ofFunction _, .ofAttribute _, _
  | .ofFunction _, .ofClass _ _, _ | .ofFunction _, .verbatim _, _
  | .ofAttribute _, _, _ | .verbatim _, _, _ => by
    simpa only [mergeInto] using StubItem.growsTo_refl _

theorem mergeAll_growsTo : ∀ (generated items : List StubItem), AreFresh fresh generated →
    ItemsGrowTo fresh items (mergeAll generated items)
  | [], items, _ => by simpa only [mergeAll] using itemsGrowTo_refl items
  | g :: more, items, h => by
    simp only [mergeAll]
    have hg := itemsGrowTo_changeFirst (sameSlot · g) g
      (fun existing => mergeInto_growsTo g existing h.1) items
    exact hg.trans (mergeAll_growsTo more _ h.2)
end

/-- **One merge makes items grow.** -/
theorem mergeItem_growsTo {generated : StubItem} (items : List StubItem)
    (h : generated.IsFresh fresh) : ItemsGrowTo fresh items (mergeItem items generated) :=
  itemsGrowTo_changeFirst _ _ (fun existing => mergeInto_growsTo generated existing h) items

/-! ### Whole builds -/

namespace Scope

/-- Whether a parameter is written in the stub of a function of the module or of one of its classes. -/
def Writes (scope : Scope) (p : ParamText) : Prop :=
  ∃ owner f built, scope.WritesFunction owner f built ∧ p ∈ built.params ∧
    ((owner = none ∧ f ∈ scope.module.functions) ∨
      ∃ c ∈ scope.module.classes, owner = some c ∧ f ∈ c.methods)

theorem IsAttribute.isFresh {a : SourceAttribute} {item : StubItem} (h : IsAttribute a item) :
    item.IsFresh fresh := by
  obtain ⟨hint, value, rfl⟩ := h
  trivial

theorem WritesClass.isFresh {scope : Scope} {c : SourceClass} (hc : c ∈ scope.module.classes)
    {item : StubItem} (h : scope.WritesClass c item) : item.IsFresh scope.Writes := by
  obtain ⟨head, attributes, methods, rfl, -, hattributes, hmethods⟩ := h
  refine areFresh_iff.mpr fun item hitem => ?_
  rcases List.mem_append.mp hitem with h | h
  · obtain ⟨a, -, -, ha⟩ := hattributes item h
    exact ha.isFresh
  · obtain ⟨built, hbuilt, rfl⟩ := List.mem_map.mp h
    obtain ⟨f, hf, hw⟩ := exists_of_forall₂ hmethods hbuilt
    exact fun p hp => ⟨some c, f, built, hw, hp, .inr ⟨c, hc, rfl, (List.mem_filter.mp hf).1⟩⟩

end Scope

namespace Emission

variable {scope : Scope} {items : List StubItem}

theorem assignments_grow {e : Emission} (h : ItemsGrowTo scope.Writes items e.items) :
    ItemsGrowTo scope.Writes items (e.assignments scope).items := by
  unfold assignments
  refine List.foldlRecOn
    (motive := fun e : Emission => ItemsGrowTo scope.Writes items e.items) _ _ h ?_
  intro e he a _
  exact he.trans (mergeItem_growsTo e.items (scope.isAttribute_moduleAttribute a e.added).isFresh)

theorem classes_grow {e : Emission} (h : ItemsGrowTo scope.Writes items e.items) :
    ItemsGrowTo scope.Writes items (e.classes scope).items := by
  unfold classes
  refine List.foldlRecOn
    (motive := fun e : Emission => ItemsGrowTo scope.Writes items e.items) _ _ h ?_
  intro e he c hc
  have hmem : c ∈ scope.module.classes := (List.mem_filter.mp hc).1
  exact he.trans (mergeItem_growsTo e.items
    ((scope.writesClass_classItem e.tally c e.added).1.isFresh hmem))

theorem functions_grow {e : Emission} (h : ItemsGrowTo scope.Writes items e.items) :
    ItemsGrowTo scope.Writes items (e.functions scope).items := by
  unfold functions
  refine List.foldlRecOn
    (motive := fun e : Emission => ItemsGrowTo scope.Writes items e.items) _ _ h ?_
  intro e he built hbuilt
  refine he.trans (mergeItem_growsTo e.items ?_)
  obtain ⟨f, hf, hw⟩ := Scope.exists_of_forall₂ (scope.functionItems_spec none _ _ _).1 hbuilt
  exact fun p hp => ⟨none, f, built, hw, hp, .inl ⟨rfl, (List.mem_filter.mp hf).1⟩⟩

theorem emit_grows {e : Emission} (stage : Stage) (h : ItemsGrowTo scope.Writes items e.items) :
    ItemsGrowTo scope.Writes items (stage.emit scope e).items := by
  cases stage with
  | assignments => exact assignments_grow h
  | classes => exact classes_grow h
  | functions => exact functions_grow h

end Emission

/-- **A build keeps the stub that it starts from.** -/
theorem buildStub_growsTo (settings : Settings) (index : SourceIndex) (module : SourceModule)
    (existing : Stub) :
    let scope := Scope.onto settings index module existing
    let built := (buildStub settings index module existing).1.items
    existing.items.length ≤ built.length ∧
      ∀ (i : Nat) (hi : i < existing.items.length) (hb : i < built.length),
        existing.items[i].GrowsTo scope.Writes built[i] := by
  intro scope built
  have h : ItemsGrowTo scope.Writes existing.items built := by
    refine List.foldlRecOn
      (motive := fun e : Emission => ItemsGrowTo scope.Writes existing.items e.items)
      Stage.all _ (itemsGrowTo_refl _) ?_
    exact fun e he stage _ => Emission.emit_grows stage he
  exact ⟨h.length_le, fun i hi hb => h.getElem i hi hb⟩

end TypedStubs
