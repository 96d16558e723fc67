import TypedStubs.Proofs.Stub.Absorbed
import TypedStubs.Proofs.Stub.ClassVar

/-! # What is written has the same shape in any wording

The imports that a stub had before decide on the wording of what is emitted and on nothing else.  A function is
written with the same name, decorators and parameters (`Scope.WritesFunction.mimics`), a class with the same members
(`Scope.LaysOut.mimics`), and a whole module with the same items (`Scope.Generates.mimics`).

The members of a class keep to slots of their own unless two of its methods share their name and their role for a
property (`Scope.LaysOut.keepsApart`).  So what is emitted a second time finds that it was merged in before, and
the items of the stub stay (`Scope.items_emit_again`).
-/
namespace TypedStubs

/-! ### Functions, attributes and classes -/

namespace Scope

variable {scope : Scope} {owner : Option SourceClass} {c : SourceClass}

/-- Whether the stub of a function says what it returns. -/
def saysReturn (f : SourceFunction) : Bool :=
  f.returnText.isSome || f.name == "__init__" || f.inferredReturn.isSome

theorem ends_returnText_isSome (scope : Scope) (f : SourceFunction) :
    Ends (f.returnText.all fun text => (Hint.parse text).isOk) (fun r => r.isSome = saysReturn f)
      (scope.returnText f) := by
  unfold returnText saysReturn
  cases f.returnText with
  | some text =>
    rw [Option.all_some, ← Bool.and_true (Hint.parse text).isOk]
    exact (scope.ends_localizeText text).bind fun spelled _ => .pure rfl
  | none =>
    dsimp only [Option.all_none]
    split
    · next hinit => exact .pure (by simp [hinit])
    · next hinit =>
      cases f.inferredReturn with
      | some hint =>
        exact (Ends.lift (P := fun _ => True) fun _ => trivial).bind fun spelled _ => .pure (by simp)
      | none => exact .pure (by simp [hinit])

theorem ends_function_returns (scope : Scope) (owner : Option SourceClass) (f : SourceFunction) :
    Ends (scope.writable owner f) (fun built => built.returns.isSome = saysReturn f) (scope.function f owner) := by
  have hparts : scope.writable owner f =
      ((Signature.synthesize scope.settings scope.index f owner).isOk &&
        (true && ((f.returnText.all fun text => (Hint.parse text).isOk) && true))) := by
    simp [writable]
  rw [hparts]
  exact (Ends.liftExcept _).bind fun signature _ =>
    (Ends.mapM (R := fun _ _ => True) (fun p => .lift fun _ => trivial) signature).bind fun params _ =>
      (scope.ends_returnText_isSome f).bind fun returns hreturns => .pure hreturns

theorem WritesFunction.isSome_returns {f : SourceFunction} {built : StubFunction}
    (h : scope.WritesFunction owner f built) : built.returns.isSome = saysReturn f := by
  obtain ⟨added, hrun⟩ := h
  have hends := scope.ends_function_returns owner f added
  rw [hrun] at hends
  exact hends.2

/-- A scope on top of another stub. -/
def above (scope : Scope) (existing : List Import) (names : List String) : Scope :=
  { scope with existing := existing, existingNames := names }

variable {existing : List Import} {names : List String}

/-- A function is written alike whatever the stub had before. -/
theorem WritesFunction.mimics {f : SourceFunction} {built again : StubFunction}
    (h : scope.WritesFunction owner f built) (h' : (scope.above existing names).WritesFunction owner f again) :
    built.Mimics again where
  name := h.frameOf.name.trans h'.frameOf.name.symm
  decorators := h.frameOf.decorators.trans h'.frameOf.decorators.symm
  params := by
    obtain ⟨signature, hsignature, hparams⟩ := h.frameOf.params
    obtain ⟨signature', hsignature', hparams'⟩ := h'.frameOf.params
    obtain rfl : signature = signature' := Except.ok.inj (hsignature.symm.trans hsignature')
    refine List.forall₂_iff_get.2 ⟨hparams.length_eq.symm.trans hparams'.length_eq, fun i hi hi' => ?_⟩
    have hlength := hparams.length_eq
    have hfirst := hparams.get (by omega : i < signature.length) hi
    have hsecond := hparams'.get (by omega : i < signature.length) hi'
    exact ⟨hfirst.1.trans hsecond.1.symm, hfirst.2.trans hsecond.2.symm⟩
  returns := by
    have hsame : built.returns.isSome = again.returns.isSome := h.isSome_returns.trans h'.isSome_returns.symm
    intro hnone
    simpa [hnone] using hsame

/-- What a class is written as: attributes of its own, each name once, and its methods that are emitted. -/
def LaysOut (scope : Scope) (c : SourceClass) (item : StubItem) : Prop :=
  ∃ head attributes methods, item = .ofClass head (attributes ++ methods.map .ofFunction) ∧ head.name = c.name ∧
    List.Forall₂ IsAttribute (scope.classLevel c ++ scope.instanceLevel c) attributes ∧
    List.Forall₂ (scope.WritesFunction (some c)) (c.methods.filter (scope.emits (some c))) methods

theorem forall₂_attributeItems (scope : Scope) (c : SourceClass) (added : List Import) :
    List.Forall₂ IsAttribute (scope.classLevel c ++ scope.instanceLevel c)
      ((scope.attributeItems c).run added).1 := by
  unfold attributeItems
  rw [StateT.run_bind]
  refine List.rel_append (forall₂_mapM_run (fun a s => ?_) _ _) (forall₂_mapM_run (fun a s => ?_) _ _)
  · exact ⟨_, _, rfl⟩
  · exact ⟨_, _, rfl⟩

theorem laysOut_classItem (scope : Scope) (tally : Tally) (c : SourceClass) (added : List Import) :
    scope.LaysOut c ((scope.classItem tally c).run added).1.1 := by
  obtain ⟨head, added₁, added₂, hname, hitem, -⟩ := scope.exists_classItem_run tally c added
  exact ⟨head, _, _, hitem, hname, scope.forall₂_attributeItems c added₁,
    (scope.functionItems_spec (some c) tally c.methods added₂).1⟩

/-- Items that are written for the same declarations are alike one by one. -/
theorem allMimic_of_forall₂ {α : Type} {R S : α → StubItem → Prop}
    (h : ∀ a x y, R a x → S a y → x.Mimics y) {as : List α} {xs ys : List StubItem}
    (hxs : List.Forall₂ R as xs) (hys : List.Forall₂ S as ys) : AllMimic xs ys := by
  induction hxs generalizing ys with
  | nil =>
    obtain rfl := List.forall₂_nil_left_iff.1 hys
    trivial
  | cons hx _ ih =>
    obtain ⟨y, ys, hy, hrest, rfl⟩ := List.forall₂_cons_left_iff.1 hys
    exact ⟨h _ _ _ hx hy, ih hrest⟩

theorem AllMimic.append {xs ys more others : List StubItem} (h : AllMimic xs ys) (hmore : AllMimic more others) :
    AllMimic (xs ++ more) (ys ++ others) := by
  induction xs generalizing ys with
  | nil =>
    cases ys with
    | nil => exact hmore
    | cons y ys => exact h.elim
  | cons x xs ih =>
    cases ys with
    | nil => exact h.elim
    | cons y ys => exact ⟨h.1, ih h.2⟩

theorem IsAttribute.mimics {a : SourceAttribute} {x y : StubItem} (hx : IsAttribute a x) (hy : IsAttribute a y) :
    x.Mimics y := by
  obtain ⟨hint, value, rfl⟩ := hx
  obtain ⟨hint', value', rfl⟩ := hy
  simp [StubItem.Mimics]

theorem allMimic_functions {fs : List SourceFunction} {built again : List StubFunction}
    (h : List.Forall₂ (scope.WritesFunction owner) fs built)
    (h' : List.Forall₂ ((scope.above existing names).WritesFunction owner) fs again) :
    AllMimic (built.map .ofFunction) (again.map .ofFunction) := by
  refine allMimic_of_forall₂ (R := fun f x => ∃ b, x = .ofFunction b ∧ scope.WritesFunction owner f b)
    (S := fun f x => ∃ b, x = .ofFunction b ∧ (scope.above existing names).WritesFunction owner f b) ?_
    (List.forall₂_map_right_iff.2 (h.imp fun _ b hb => ⟨b, rfl, hb⟩))
    (List.forall₂_map_right_iff.2 (h'.imp fun _ b hb => ⟨b, rfl, hb⟩))
  rintro f _ _ ⟨b, rfl, hb⟩ ⟨b', rfl, hb'⟩
  exact hb.mimics hb'

theorem freeAttributes_above (taken : List String) (as : List SourceAttribute) :
    (scope.above existing names).freeAttributes taken as = scope.freeAttributes taken as := by
  induction as generalizing taken with
  | nil => rfl
  | cons a as ih =>
    rw [freeAttributes, freeAttributes, ih, ih]
    rfl

theorem levels_above (c : SourceClass) :
    (scope.above existing names).classLevel c ++ (scope.above existing names).instanceLevel c =
      scope.classLevel c ++ scope.instanceLevel c := by
  simp only [classLevel, instanceLevel, freeAttributes_above]

theorem LaysOut.mimics {x y : StubItem} (h : scope.LaysOut c x) (h' : (scope.above existing names).LaysOut c y) :
    x.Mimics y := by
  obtain ⟨head, attributes, methods, rfl, hname, hattributes, hmethods⟩ := h
  obtain ⟨head', attributes', methods', rfl, hname', hattributes', hmethods'⟩ := h'
  refine ⟨hname.trans hname'.symm, AllMimic.append ?_ (allMimic_functions hmethods hmethods')⟩
  rw [levels_above] at hattributes'
  exact allMimic_of_forall₂ (fun a x y hx hy => hx.mimics hy) hattributes hattributes'

/-! ### Members keep apart -/

/-- Whether no two methods of a class that are emitted share their name and their role for a property. -/
def OneForEach (scope : Scope) (c : SourceClass) : Prop :=
  (c.methods.filter (scope.emits (some c))).Pairwise fun f g =>
    f.name = g.name → scope.role? (some c) f ≠ scope.role? (some c) g

instance (scope : Scope) (c : SourceClass) : Decidable (scope.OneForEach c) :=
  inferInstanceAs (Decidable ((c.methods.filter (scope.emits (some c))).Pairwise fun f g =>
    f.name = g.name → scope.role? (some c) f ≠ scope.role? (some c) g))

theorem pairwise_freeAttributes (scope : Scope) (taken : List String) (as : List SourceAttribute) :
    (scope.freeAttributes taken as).Pairwise fun a b => a.name ≠ b.name := by
  induction as generalizing taken with
  | nil => exact .nil
  | cons a as ih =>
    rw [freeAttributes]
    split
    · exact ih taken
    · refine List.pairwise_cons.2 ⟨fun b hb heq => ?_, ih _⟩
      exact (mem_freeAttributes hb).2.2 (heq ▸ List.mem_cons_self)

theorem pairwise_levels (scope : Scope) (c : SourceClass) :
    (scope.classLevel c ++ scope.instanceLevel c).Pairwise fun a b => a.name ≠ b.name := by
  refine List.pairwise_append.2 ⟨pairwise_freeAttributes _ _ _, pairwise_freeAttributes _ _ _, ?_⟩
  exact fun a ha b hb => name_ne_of_mem_instanceLevel hb ha

theorem name_notMem_methods {a : SourceAttribute} (h : a ∈ scope.classLevel c ++ scope.instanceLevel c) :
    a.name ∉ c.methods.map (·.name) := by
  rcases List.mem_append.1 h with h | h
  · exact (mem_freeAttributes h).2.2
  · exact fun hmem => (mem_freeAttributes h).2.2 (List.mem_append_right _ hmem)

/-- A relation between elements is one between what is made of them. -/
theorem pairwise_of_forall₂ {α β : Type} {R : α → β → Prop} {S : α → α → Prop} {T : β → β → Prop}
    (h : ∀ a b x y, R a x → R b y → S a b → T x y) {as : List α} {xs : List β} (hxs : List.Forall₂ R as xs)
    (has : as.Pairwise S) : xs.Pairwise T := by
  induction hxs with
  | nil => exact .nil
  | @cons a x as xs hx hrest ih =>
    obtain ⟨ha, has⟩ := List.pairwise_cons.1 has
    refine List.pairwise_cons.2 ⟨fun y hy => ?_, ih has⟩
    obtain ⟨b, hb, hby⟩ := exists_of_forall₂ hrest hy
    exact h a b x y hx hby (ha b hb)

theorem LaysOut.keepsApart {x : StubItem} (h : scope.LaysOut c x) (hone : scope.OneForEach c) : x.KeepsApart := by
  obtain ⟨head, attributes, methods, rfl, -, hattributes, hmethods⟩ := h
  refine ⟨List.pairwise_append.2 ⟨?_, ?_, ?_⟩, ?_⟩
  · refine pairwise_of_forall₂ ?_ hattributes (scope.pairwise_levels c)
    rintro a b _ _ ⟨hint, value, rfl⟩ ⟨hint', value', rfl⟩ hne
    simpa [sameSlot, StubItem.name?] using hne
  · rw [List.pairwise_map]
    refine pairwise_of_forall₂ ?_ hmethods hone
    intro f g b b' hb hb' hroles
    rw [← hb.frameOf.name, ← hb'.frameOf.name, ← hb.frameOf.role?, ← hb'.frameOf.role?] at hroles
    simpa [sameSlot] using hroles
  · intro x hx y hy
    obtain ⟨a, ha, hint, value, rfl⟩ := exists_of_forall₂ hattributes hx
    obtain ⟨b, hb, rfl⟩ := List.mem_map.1 hy
    obtain ⟨f, hf, hwritten⟩ := exists_of_forall₂ hmethods hb
    have hne : a.name ≠ b.name := by
      intro heq
      refine name_notMem_methods ha (List.mem_map.2 ⟨f, (List.mem_filter.1 hf).1, ?_⟩)
      rw [heq, hwritten.frameOf.name]
    simpa [sameSlot, StubItem.name?] using hne
  · refine allKeepApart_iff.2 fun x hx => ?_
    rcases List.mem_append.1 hx with hx | hx
    · obtain ⟨a, -, hint, value, rfl⟩ := exists_of_forall₂ hattributes hx
      trivial
    · obtain ⟨b, -, rfl⟩ := List.mem_map.1 hx
      trivial

theorem LaysOut.unmarked {x : StubItem} (h : scope.LaysOut c x) : x.Unmarked := by
  obtain ⟨head, attributes, methods, rfl, -, hattributes, hmethods⟩ := h
  refine allUnmarked_iff.2 fun item hitem => ?_
  rcases List.mem_append.1 hitem with hitem | hitem
  · obtain ⟨a, -, hint, value, rfl⟩ := exists_of_forall₂ hattributes hitem
    trivial
  · obtain ⟨b, hb, rfl⟩ := List.mem_map.1 hitem
    obtain ⟨f, -, hwritten⟩ := exists_of_forall₂ hmethods hb
    exact hwritten.markersUnnamed

/-! ### Items stay -/

/-- What is written for the declarations that are left in, with nothing said of its wording. -/
def Generates (scope : Scope) (generated : List StubItem) : Prop :=
  ∃ attributes classes functions, generated = attributes ++ classes ++ functions.map .ofFunction ∧
    List.Forall₂ IsAttribute (scope.module.attributes.filter (!scope.skips ·)) attributes ∧
    List.Forall₂ scope.LaysOut scope.keptClasses classes ∧
    List.Forall₂ (scope.WritesFunction none) (scope.module.functions.filter (scope.emits none)) functions

/-- An emission with all that a scope writes. -/
def emit (scope : Scope) (e : Emission) : Emission := Stage.all.foldl (Stage.emit scope) e

theorem exists_generated (scope : Scope) (e : Emission) :
    ∃ generated, scope.Generates generated ∧ (scope.emit e).items = mergeAll generated e.items := by
  obtain ⟨attributes, hattributes, hfirst⟩ := scope.exists_assignments e
  obtain ⟨classes, hclasses, hsecond⟩ := scope.exists_classes_of scope.laysOut_classItem (e.assignments scope)
  obtain ⟨functions, hfunctions, hthird⟩ := scope.exists_functions ((e.assignments scope).classes scope)
  exact ⟨_, ⟨attributes, classes, functions, rfl, hattributes, hclasses, hfunctions⟩,
    ((hfirst.trans hsecond).trans hthird).items⟩

namespace Generates

variable {generated again : List StubItem}

theorem mimics (h : scope.Generates generated) (h' : (scope.above existing names).Generates again) :
    AllMimic generated again := by
  obtain ⟨attributes, classes, functions, rfl, hattributes, hclasses, hfunctions⟩ := h
  obtain ⟨attributes', classes', functions', rfl, hattributes', hclasses', hfunctions'⟩ := h'
  refine AllMimic.append (AllMimic.append ?_ ?_) (allMimic_functions hfunctions hfunctions')
  · exact allMimic_of_forall₂ (fun a x y hx hy => hx.mimics hy) hattributes hattributes'
  · have halike : ∀ c x y, scope.LaysOut c x → (scope.above existing names).LaysOut c y → x.Mimics y :=
      fun c x y hx hy => hx.mimics hy
    exact allMimic_of_forall₂ halike hclasses hclasses'

theorem unmarked (h : scope.Generates generated) : AllUnmarked generated := by
  obtain ⟨attributes, classes, functions, rfl, hattributes, hclasses, hfunctions⟩ := h
  refine allUnmarked_iff.2 fun item hitem => ?_
  rw [List.mem_append, List.mem_append, List.mem_map] at hitem
  rcases hitem with (hitem | hitem) | ⟨b, hb, rfl⟩
  · obtain ⟨a, -, hint, value, rfl⟩ := exists_of_forall₂ hattributes hitem
    trivial
  · obtain ⟨c, -, hc⟩ := exists_of_forall₂ hclasses hitem
    exact hc.unmarked
  · obtain ⟨f, -, hf⟩ := exists_of_forall₂ hfunctions hb
    exact hf.markersUnnamed

theorem keepApart (h : scope.Generates generated) (hone : ∀ c ∈ scope.keptClasses, scope.OneForEach c) :
    AllKeepApart generated := by
  obtain ⟨attributes, classes, functions, rfl, hattributes, hclasses, hfunctions⟩ := h
  refine allKeepApart_iff.2 fun item hitem => ?_
  rw [List.mem_append, List.mem_append, List.mem_map] at hitem
  rcases hitem with (hitem | hitem) | ⟨b, -, rfl⟩
  · obtain ⟨a, -, hint, value, rfl⟩ := exists_of_forall₂ hattributes hitem
    trivial
  · obtain ⟨c, hc, hlays⟩ := exists_of_forall₂ hclasses hitem
    exact hlays.keepsApart (hone c hc)
  · trivial

end Generates

/-- **The items of a stub stay when it is emitted again on top of itself.** -/
theorem items_emit_again (hone : ∀ c ∈ scope.keptClasses, scope.OneForEach c) (e later : Emission)
    (he : AllUnmarked e.items) (hlater : later.items = (scope.emit e).items)
    (existing : List Import) (names : List String) :
    ((scope.above existing names).emit later).items = later.items := by
  obtain ⟨generated, hgenerated, hitems⟩ := scope.exists_generated e
  obtain ⟨again, hagain, hmore⟩ := (scope.above existing names).exists_generated later
  rw [hmore, hlater, hitems]
  exact mergeAll_again (hgenerated.mimics hagain) hgenerated.unmarked (hgenerated.keepApart hone) he

end Scope

end TypedStubs
