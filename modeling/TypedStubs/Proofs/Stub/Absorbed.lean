import TypedStubs.Proofs.Stub.Blend
import TypedStubs.Proofs.Stub.Markers

/-! # Items that were merged in are merged in again

An item absorbs a generated one when it has all that this would add to it (`StubItem.AbsorbedBy`), and items absorb
generated ones when each of these finds its slot taken by an item that does (`AllAbsorbed`).  Then a merge leaves
them as they are (`mergeAll_of_absorbed`).

A merge makes items absorb what is merged in, and they absorb what they absorbed before
(`AllAbsorbed.mergeItem`).  What is generated the second time may be worded in another way, so all of this is said
of items that have the same names, slots and parameters as those that were merged in (`StubItem.Mimics`).  Only a
class that is new is not merged with itself: it absorbs itself when each of its members keeps to a slot of its own
(`StubItem.KeepsApart`).
-/
namespace TypedStubs

open Syntax (ParamKind)

/-! ### What is absorbed -/

/-- Whether a function has all that a generated one would add to it. -/
structure StubFunction.Absorbs (f g : StubFunction) : Prop where
  /-- Parameters. -/
  params : ∀ p ∈ g.params, Covers f.params p
  /-- What it returns. -/
  returns : f.returns = none → g.returns = none
  /-- Decorators. -/
  decorators : f.decorators = [] → g.decorators = []

mutual
/-- Whether all that a generated item would add to an existing one is there. -/
def StubItem.AbsorbedBy : (generated existing : StubItem) → Prop
  | .ofClass _ members, .ofClass _ items => AllAbsorbed members items
  | .ofFunction g, .ofFunction f => f.Absorbs g
  | _, _ => True

/-- Whether each generated item finds its slot taken by an item that absorbs it. -/
def AllAbsorbed : (generated items : List StubItem) → Prop
  | [], _ => True
  | g :: more, items =>
    (∃ x, items.find? (sameSlot · g) = some x ∧ g.AbsorbedBy x) ∧ AllAbsorbed more items
end

theorem StubFunction.merge_of_absorbs {f g : StubFunction} (h : f.Absorbs g) : f.merge g = f := by
  have hparams : mergeParams f.params false g.params = f.params := mergeParams_of_covers h.params false
  have hreturns : (f.returns <|> g.returns) = f.returns := by
    cases hf : f.returns with
    | none => simp [h.returns hf]
    | some text => rfl
  have hdecorators : (if f.decorators.isEmpty then g.decorators else f.decorators) = f.decorators := by
    cases hf : f.decorators with
    | nil => simp [h.decorators hf]
    | cons d ds => rfl
  rw [StubFunction.merge, hparams, hreturns, hdecorators]

theorem changeFirst_eq_self {α : Type} {p : α → Bool} {f : α → α} {new x : α} {xs : List α}
    (h : xs.find? p = some x) (hx : f x = x) : changeFirst p f new xs = xs := by
  induction xs with
  | nil => cases h
  | cons y ys ih =>
    rw [changeFirst]
    cases hy : p y with
    | true =>
      rw [List.find?_cons_of_pos hy] at h
      obtain rfl := Option.some.inj h
      rw [if_pos rfl, hx]
    | false =>
      rw [List.find?_cons_of_neg (by simp [hy])] at h
      rw [if_neg Bool.false_ne_true, ih h]

mutual
theorem mergeInto_of_absorbed : ∀ (g x : StubItem), g.AbsorbedBy x → mergeInto g x = x
  | .ofClass _ members, .ofClass head items, h => by
    rw [mergeInto, mergeAll_of_absorbed members items h]
  | .ofFunction g, .ofFunction f, h => by rw [mergeInto, StubFunction.merge_of_absorbs h]
  | .ofClass _ _, .ofAttribute _, _ | .ofClass _ _, .ofFunction _, _ | .ofClass _ _, .verbatim _, _
  | .ofFunction _, .ofAttribute _, _ | .ofFunction _, .ofClass _ _, _ | .ofFunction _, .verbatim _, _
  | .ofAttribute _, _, _ | .verbatim _, _, _ => by simp only [mergeInto]

/-- **A merge leaves items as they are that absorb what is merged in.** -/
theorem mergeAll_of_absorbed : ∀ gs items : List StubItem, AllAbsorbed gs items → mergeAll gs items = items
  | [], items, _ => mergeAll_nil items
  | g :: more, items, ⟨⟨x, hfind, hx⟩, hmore⟩ => by
    rw [mergeAll_cons, mergeItem, changeFirst_eq_self hfind (mergeInto_of_absorbed g x hx)]
    exact mergeAll_of_absorbed more items hmore
end

/-! ### Markers -/

mutual
/-- Whether the markers of all functions in an item have no name. -/
def StubItem.Unmarked : StubItem → Prop
  | .ofFunction f => MarkersUnnamed f.params
  | .ofClass _ items => AllUnmarked items
  | .ofAttribute _ | .verbatim _ => True

/-- Whether the markers of all functions in some items have no name. -/
def AllUnmarked : List StubItem → Prop
  | [] => True
  | item :: items => item.Unmarked ∧ AllUnmarked items
end

theorem allUnmarked_iff {items : List StubItem} : AllUnmarked items ↔ ∀ item ∈ items, item.Unmarked := by
  induction items with
  | nil => simp [AllUnmarked]
  | cons item items ih => simp [AllUnmarked, ih]

theorem AllUnmarked.mergeItem {items : List StubItem} {g : StubItem} (hitems : AllUnmarked items)
    (hg : g.Unmarked) (hinto : ∀ x ∈ items, (mergeInto g x).Unmarked) : AllUnmarked (mergeItem items g) := by
  rw [allUnmarked_iff] at hitems ⊢
  exact forall_mem_mergeItem hitems hg fun x hx _ => hinto x hx

mutual
theorem StubItem.Unmarked.mergeInto : ∀ g x : StubItem, g.Unmarked → x.Unmarked → (mergeInto g x).Unmarked
  | .ofClass _ members, .ofClass head items, hg, hx => by
    rw [TypedStubs.mergeInto]
    exact AllUnmarked.mergeAll members items hg hx
  | .ofFunction g, .ofFunction f, hg, hx => by
    rw [TypedStubs.mergeInto]
    exact StubFunction.markersUnnamed_merge hx hg
  | .ofClass _ _, .ofAttribute _, _, hx | .ofClass _ _, .ofFunction _, _, hx
  | .ofClass _ _, .verbatim _, _, hx | .ofFunction _, .ofAttribute _, _, hx
  | .ofFunction _, .ofClass _ _, _, hx | .ofFunction _, .verbatim _, _, hx
  | .ofAttribute _, _, _, hx | .verbatim _, _, _, hx => by simpa only [TypedStubs.mergeInto] using hx

theorem AllUnmarked.mergeAll : ∀ gs items : List StubItem, AllUnmarked gs → AllUnmarked items →
    AllUnmarked (mergeAll gs items)
  | [], items, _, hitems => by rwa [mergeAll_nil]
  | g :: more, items, ⟨hg, hmore⟩, hitems => by
    rw [mergeAll_cons]
    refine AllUnmarked.mergeAll more _ hmore (hitems.mergeItem hg fun x hx => ?_)
    exact StubItem.Unmarked.mergeInto g x hg (allUnmarked_iff.1 hitems x hx)
end

/-! ### What is absorbed stays so -/

theorem StubFunction.Absorbs.merge {f g k : StubFunction} (h : f.Absorbs g) (hf : MarkersUnnamed f.params) :
    (f.merge k).Absorbs g where
  params := fun p hp => covers_mergeParams false hf.star (.inr (h.params p hp))
  returns := by
    intro hnone
    refine h.returns ?_
    cases hreturns : f.returns with
    | none => rfl
    | some text => simp [StubFunction.merge, hreturns] at hnone
  decorators := by
    intro hnil
    refine h.decorators ?_
    cases hdecorators : f.decorators with
    | nil => rfl
    | cons d ds => simp [StubFunction.merge, hdecorators] at hnil

/-- What takes up a slot still does so behind a merge, as it was or with something merged into it. -/
theorem find?_mergeItem {items : List StubItem} {g k x : StubItem}
    (h : items.find? (sameSlot · g) = some x) :
    ∃ y, (mergeItem items k).find? (sameSlot · g) = some y ∧ (y = x ∨ y = mergeInto k x) := by
  unfold mergeItem
  induction items with
  | nil => cases h
  | cons z zs ih =>
    rw [changeFirst]
    cases hslot : sameSlot z k with
    | true =>
      -- what `k` is merged into takes up the slots that it took up before
      have hsame := sameSlot_of_alike_left (alike_mergeInto hslot) g
      cases hz : sameSlot z g with
      | true =>
        simp only [List.find?_cons, hz, Option.some.injEq] at h
        subst h
        exact ⟨mergeInto k z, by simp [hsame, hz], .inr rfl⟩
      | false =>
        simp only [List.find?_cons, hz] at h
        exact ⟨x, by simp [hsame, hz, h], .inl rfl⟩
    | false =>
      cases hz : sameSlot z g with
      | true =>
        simp only [List.find?_cons, hz, Option.some.injEq] at h
        subst h
        exact ⟨z, by simp [hz], .inl rfl⟩
      | false =>
        simp only [List.find?_cons, hz] at h
        obtain ⟨y, hy, hcases⟩ := ih h
        exact ⟨y, by simpa [hz] using hy, hcases⟩

/-- What holds of items behind every merge holds behind a run of merges. -/
theorem mergeAll_induction {P : List StubItem → Prop}
    (hstep : ∀ items g, AllUnmarked items → g.Unmarked → P items → P (mergeItem items g)) :
    ∀ gs items : List StubItem, AllUnmarked gs → AllUnmarked items → P items → P (mergeAll gs items)
  | [], items, _, _, h => by rwa [mergeAll_nil]
  | g :: more, items, ⟨hg, hmore⟩, hitems, h => by
    rw [mergeAll_cons]
    refine mergeAll_induction hstep more _ hmore ?_ (hstep items g hitems hg h)
    refine hitems.mergeItem hg fun x hx => ?_
    exact StubItem.Unmarked.mergeInto g x hg (allUnmarked_iff.1 hitems x hx)

mutual
theorem StubItem.AbsorbedBy.mergeInto : ∀ (g x k : StubItem), x.Unmarked → k.Unmarked → g.AbsorbedBy x →
    g.AbsorbedBy (mergeInto k x)
  | .ofClass _ members, .ofClass head items, .ofClass _ more, hx, hk, h => by
    rw [TypedStubs.mergeInto]
    refine mergeAll_induction (P := AllAbsorbed members) ?_ more items hk hx h
    exact fun items k hitems hk h => AllAbsorbed.mergeItem members items k hitems hk h
  | .ofFunction g, .ofFunction f, .ofFunction k, hx, _, h => by
    rw [TypedStubs.mergeInto]
    exact StubFunction.Absorbs.merge h hx
  | .ofClass _ _, .ofClass _ _, .ofAttribute _, _, _, h | .ofClass _ _, .ofClass _ _, .ofFunction _, _, _, h
  | .ofClass _ _, .ofClass _ _, .verbatim _, _, _, h | .ofFunction _, .ofFunction _, .ofAttribute _, _, _, h
  | .ofFunction _, .ofFunction _, .ofClass _ _, _, _, h | .ofFunction _, .ofFunction _, .verbatim _, _, _, h => by
    simpa only [TypedStubs.mergeInto] using h
  | .ofClass _ _, .ofFunction _, k, _, _, _ | .ofFunction _, .ofClass _ _, k, _, _, _
  | .ofClass _ _, .ofAttribute _, k, _, _, _ | .ofClass _ _, .verbatim _, k, _, _, _
  | .ofFunction _, .ofAttribute _, k, _, _, _ | .ofFunction _, .verbatim _, k, _, _, _
  | .ofAttribute _, _, k, _, _, _ | .verbatim _, _, k, _, _, _ => by
    cases k <;> simp [TypedStubs.mergeInto, StubItem.AbsorbedBy]

/-- **Items absorb behind a merge what they absorbed before it.** -/
theorem AllAbsorbed.mergeItem : ∀ (gs items : List StubItem) (k : StubItem), AllUnmarked items → k.Unmarked →
    AllAbsorbed gs items → AllAbsorbed gs (mergeItem items k)
  | [], _, _, _, _, _ => trivial
  | g :: more, items, k, hitems, hk, ⟨⟨x, hfind, hx⟩, hmore⟩ => by
    refine ⟨?_, AllAbsorbed.mergeItem more items k hitems hk hmore⟩
    obtain ⟨y, hy, rfl | rfl⟩ := find?_mergeItem (k := k) hfind
    · exact ⟨y, hy, hx⟩
    · have hunmarked := allUnmarked_iff.1 hitems x (List.mem_of_find?_eq_some hfind)
      exact ⟨_, hy, StubItem.AbsorbedBy.mergeInto g x k hunmarked hk hx⟩
end

/-! ### What was merged in is absorbed -/

/-- Whether two functions are alike in all that decides on a merge: what they add has the same names, and is there
in one just when it is in the other. -/
structure StubFunction.Mimics (f g : StubFunction) : Prop where
  /-- The names are the same. -/
  name : f.name = g.name
  /-- The decorators are the same. -/
  decorators : f.decorators = g.decorators
  /-- The parameters have the same names and kinds. -/
  params : List.Forall₂ (fun p q => p.name = q.name ∧ p.kind = q.kind) f.params g.params
  /-- Both say what they return, or neither does. -/
  returns : f.returns = none → g.returns = none

mutual
/-- Whether two items are alike in all that decides on a merge. -/
def StubItem.Mimics : StubItem → StubItem → Prop
  | .ofAttribute a, .ofAttribute b => a.name = b.name
  | .ofFunction f, .ofFunction g => f.Mimics g
  | .ofClass head items, .ofClass other members => head.name = other.name ∧ AllMimic items members
  | _, _ => False

/-- Whether items are alike to others one by one. -/
def AllMimic : List StubItem → List StubItem → Prop
  | [], [] => True
  | x :: xs, y :: ys => x.Mimics y ∧ AllMimic xs ys
  | _, _ => False
end

theorem StubFunction.Mimics.role?_eq {f g : StubFunction} (h : f.Mimics g) : f.role? = g.role? := by
  simp only [StubFunction.role?, h.name, h.decorators]

theorem StubItem.Mimics.alike {x y : StubItem} (h : x.Mimics y) : x.alike y = true := by
  cases x with
  | ofAttribute a =>
    cases y with
    | ofAttribute b =>
      simp only [StubItem.Mimics] at h
      simpa [StubItem.alike] using h
    | ofClass _ _ | ofFunction _ | verbatim _ => exact h.elim
  | ofFunction f =>
    cases y with
    | ofFunction g => simp [StubItem.alike, StubFunction.Mimics.role?_eq h, StubFunction.Mimics.name h]
    | ofClass _ _ | ofAttribute _ | verbatim _ => exact h.elim
  | ofClass head items =>
    cases y with
    | ofClass other members => simpa [StubItem.alike] using h.1
    | ofFunction _ | ofAttribute _ | verbatim _ => exact h.elim
  | verbatim text => cases y <;> exact h.elim

mutual
/-- Whether each member of a class keeps to a slot of its own. -/
def StubItem.KeepsApart : StubItem → Prop
  | .ofClass _ items => (items.Pairwise fun x y => sameSlot x y = false) ∧ AllKeepApart items
  | .ofAttribute _ | .ofFunction _ | .verbatim _ => True

/-- Whether each member of classes keeps to a slot of its own. -/
def AllKeepApart : List StubItem → Prop
  | [] => True
  | item :: items => item.KeepsApart ∧ AllKeepApart items
end

theorem allKeepApart_iff {items : List StubItem} : AllKeepApart items ↔ ∀ item ∈ items, item.KeepsApart := by
  induction items with
  | nil => simp [AllKeepApart]
  | cons item items ih => simp [AllKeepApart, ih]

theorem StubFunction.Mimics.covers {params : List ParamText} {f g : StubFunction} (h : f.Mimics g)
    (hcovers : ∀ p ∈ f.params, Covers params p) : ∀ p ∈ g.params, Covers params p := by
  intro q hq
  obtain ⟨p, hp, hname, hkind⟩ := Scope.exists_of_forall₂ h.params hq
  simpa only [Covers, hname, hkind] using hcovers p hp

theorem StubFunction.Mimics.absorbs {f g : StubFunction} (h : f.Mimics g) : f.Absorbs g where
  params := h.covers fun p hp => .inr (.inl ⟨p, hp, rfl⟩)
  returns := h.returns
  decorators := fun hnil => h.decorators ▸ hnil

theorem StubFunction.Mimics.absorbs_merge {e f g : StubFunction} (h : f.Mimics g)
    (he : MarkersUnnamed e.params) : (e.merge f).Absorbs g where
  params := h.covers fun p hp => covers_mergeParams false he.star (.inl hp)
  returns := by
    intro hnone
    refine h.returns ?_
    cases hreturns : e.returns with
    | none => simpa [StubFunction.merge, hreturns] using hnone
    | some text => simp [StubFunction.merge, hreturns] at hnone
  decorators := by
    intro hnil
    rw [← h.decorators]
    cases hdecorators : e.decorators with
    | nil => simpa [StubFunction.merge, hdecorators] using hnil
    | cons d ds => simp [StubFunction.merge, hdecorators] at hnil

mutual
/-- An item that keeps its members apart absorbs what is alike to it. -/
theorem StubItem.Mimics.absorbedBy : ∀ x g : StubItem, x.Mimics g → x.KeepsApart → g.AbsorbedBy x
  | .ofClass head items, .ofClass other members, h, hapart => by
    refine allAbsorbed_of_mimics [] items members h.2 ?_ hapart.2
    rw [List.nil_append]
    exact hapart.1
  | .ofFunction f, .ofFunction g, h, _ => StubFunction.Mimics.absorbs h
  | .ofAttribute _, .ofAttribute _, _, _ => trivial
  | .ofClass _ _, .ofFunction _, h, _ | .ofClass _ _, .ofAttribute _, h, _ | .ofClass _ _, .verbatim _, h, _
  | .ofFunction _, .ofClass _ _, h, _ | .ofFunction _, .ofAttribute _, h, _ | .ofFunction _, .verbatim _, h, _
  | .ofAttribute _, .ofClass _ _, h, _ | .ofAttribute _, .ofFunction _, h, _
  | .ofAttribute _, .verbatim _, h, _ | .verbatim _, _, h, _ => by simp [StubItem.Mimics] at h

/-- Items that keep apart from those before them absorb what is alike to them one by one. -/
theorem allAbsorbed_of_mimics : ∀ before xs gs : List StubItem, AllMimic xs gs →
    ((before ++ xs).Pairwise fun x y => sameSlot x y = false) → AllKeepApart xs → AllAbsorbed gs (before ++ xs)
  | _, [], [], _, _, _ => trivial
  | before, x :: xs, g :: gs, ⟨hx, hxs⟩, hapart, ⟨hkeeps, hmore⟩ => by
    refine ⟨⟨x, ?_, StubItem.Mimics.absorbedBy x g hx hkeeps⟩, ?_⟩
    · have hbefore : before.find? (sameSlot · g) = none := by
        refine List.find?_eq_none.2 fun y hy => ?_
        have := (List.pairwise_append.1 hapart).2.2 y hy x List.mem_cons_self
        simp [sameSlot_of_alike hx.alike, this]
      simp [List.find?_append, hbefore, sameSlot_self_of_alike hx.alike]
    · have := allAbsorbed_of_mimics (before ++ [x]) xs gs hxs (by simpa using hapart) hmore
      simpa using this
  | _, [], _ :: _, h, _, _ | _, _ :: _, [], h, _, _ => h.elim
end

/-- What is merged in takes up its slot. -/
theorem find?_mergeItem_self (items : List StubItem) {k g : StubItem} (h : k.Mimics g) :
    ∃ y, (mergeItem items k).find? (sameSlot · g) = some y ∧ (y = k ∨ ∃ x ∈ items, y = mergeInto k x) := by
  have hslots := sameSlot_of_alike h.alike
  rcases changeFirst_cases (sameSlot · k) (mergeInto k) k items with
    ⟨before, x, after, rfl, hx, hbefore, heq⟩ | ⟨hnone, heq⟩
  · have hfront : before.find? (sameSlot · g) = none :=
      List.find?_eq_none.2 fun y hy => by simp [hslots, hbefore y hy]
    have htaken : sameSlot (mergeInto k x) g = true :=
      (sameSlot_of_alike_left (alike_mergeInto hx) g).trans ((hslots x).trans hx)
    exact ⟨mergeInto k x, by simp [mergeItem, heq, List.find?_append, hfront, htaken],
      .inr ⟨x, by simp, rfl⟩⟩
  · have hfront : items.find? (sameSlot · g) = none :=
      List.find?_eq_none.2 fun y hy => by simp [hslots, hnone y hy]
    exact ⟨k, by simp [mergeItem, heq, List.find?_append, hfront, sameSlot_self_of_alike h.alike], .inl rfl⟩

mutual
theorem StubItem.Mimics.absorbedBy_mergeInto : ∀ k g x : StubItem, k.Mimics g → k.Unmarked → k.KeepsApart →
    x.Unmarked → g.AbsorbedBy (mergeInto k x)
  | .ofClass _ items, .ofClass _ members, .ofClass head old, h, hk, hapart, hx => by
    rw [mergeInto]
    exact allAbsorbed_mergeAll items members old h.2 hk hapart.2 hx
  | .ofFunction _, .ofFunction _, .ofFunction _, h, _, _, hx => by
    rw [mergeInto]
    exact StubFunction.Mimics.absorbs_merge h hx
  | .ofAttribute _, .ofAttribute _, x, _, _, _, _ => by
    simp [StubItem.AbsorbedBy]
  | .ofClass _ _, .ofClass _ _, .ofFunction _, _, _, _, _ | .ofClass _ _, .ofClass _ _, .ofAttribute _, _, _, _, _
  | .ofClass _ _, .ofClass _ _, .verbatim _, _, _, _, _
  | .ofFunction _, .ofFunction _, .ofClass _ _, _, _, _, _
  | .ofFunction _, .ofFunction _, .ofAttribute _, _, _, _, _
  | .ofFunction _, .ofFunction _, .verbatim _, _, _, _, _ => by simp [mergeInto, StubItem.AbsorbedBy]
  | .ofClass _ _, .ofFunction _, _, h, _, _, _ | .ofClass _ _, .ofAttribute _, _, h, _, _, _
  | .ofClass _ _, .verbatim _, _, h, _, _, _ | .ofFunction _, .ofClass _ _, _, h, _, _, _
  | .ofFunction _, .ofAttribute _, _, h, _, _, _ | .ofFunction _, .verbatim _, _, h, _, _, _
  | .ofAttribute _, .ofClass _ _, _, h, _, _, _ | .ofAttribute _, .ofFunction _, _, h, _, _, _
  | .ofAttribute _, .verbatim _, _, h, _, _, _ | .verbatim _, _, _, h, _, _, _ => by simp [StubItem.Mimics] at h

/-- **Items absorb what is alike to items that were merged into them.** -/
theorem allAbsorbed_mergeAll : ∀ ks gs items : List StubItem, AllMimic ks gs → AllUnmarked ks →
    AllKeepApart ks → AllUnmarked items → AllAbsorbed gs (mergeAll ks items)
  | [], [], _, _, _, _, _ => trivial
  | k :: ks, g :: gs, items, ⟨hk, hks⟩, ⟨hunmarked, hmore⟩, ⟨hapart, hrest⟩, hitems => by
    rw [mergeAll_cons]
    have hnext : AllUnmarked (mergeItem items k) := hitems.mergeItem hunmarked fun x hx =>
      StubItem.Unmarked.mergeInto k x hunmarked (allUnmarked_iff.1 hitems x hx)
    refine ⟨?_, allAbsorbed_mergeAll ks gs _ hks hmore hrest hnext⟩
    have hfirst : AllAbsorbed [g] (mergeItem items k) := by
      obtain ⟨y, hy, rfl | ⟨x, hx, rfl⟩⟩ := find?_mergeItem_self items hk
      · exact ⟨⟨y, hy, StubItem.Mimics.absorbedBy y g hk hapart⟩, trivial⟩
      · have hold := allUnmarked_iff.1 hitems x hx
        exact ⟨⟨_, hy, StubItem.Mimics.absorbedBy_mergeInto k g x hk hunmarked hapart hold⟩, trivial⟩
    exact (mergeAll_induction (AllAbsorbed.mergeItem [g]) ks _ hmore hnext hfirst).1
  | [], _ :: _, _, h, _, _, _ | _ :: _, [], _, h, _, _, _ => h.elim
end

/-- **Items that were merged in are merged in again without any effect**, in whatever wording. -/
theorem mergeAll_again {ks gs items : List StubItem} (h : AllMimic ks gs) (hunmarked : AllUnmarked ks)
    (hapart : AllKeepApart ks) (hitems : AllUnmarked items) :
    mergeAll gs (mergeAll ks items) = mergeAll ks items :=
  mergeAll_of_absorbed _ _ (allAbsorbed_mergeAll ks gs items h hunmarked hapart hitems)

end TypedStubs
