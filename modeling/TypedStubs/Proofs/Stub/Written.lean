import Mathlib.Data.List.Forall2
import TypedStubs.Stub.Emission

/-! # What a scope writes

A function is written just when its signature can be made and its return annotation is a hint
(`Scope.function_isOk`): the imports that were added before have no say in it, though they decide on the
spelling of its names.  `Scope.functionItems_spec` says of a list of functions which of them are written
and which are noted as failed, and `Scope.writesClass_classItem` says what a class is written as.
-/
namespace TypedStubs

namespace Scope

variable {scope : Scope} {owner : Option SourceClass}

/-! ### One function -/

/-- Whether a computation ends well just when `ok` says so, whatever imports were added before, and then
with a result that has a property. -/
def Ends {α : Type} (ok : Bool) (P : α → Prop) (m : ExceptT Hint.Problem Adding α) : Prop :=
  ∀ added : List Import, match (m.run.run added).1 with
    | .ok a => ok = true ∧ P a
    | .error _ => ok = false

section Ends

variable {α β : Type} {P : α → Prop} {Q : β → Prop} {ok again : Bool}

theorem Ends.pure {a : α} (h : P a) : Ends true P (Pure.pure a : ExceptT Hint.Problem Adding α) :=
  fun _ => ⟨rfl, h⟩

theorem Ends.any (a : α) : Ends true (fun _ => True) (Pure.pure a : ExceptT Hint.Problem Adding α) :=
  .pure trivial

theorem Ends.lift {m : Adding α} (h : ∀ added, P (m.run added).1) :
    Ends true P (liftM m : ExceptT Hint.Problem Adding α) :=
  fun added => ⟨rfl, h added⟩

theorem Ends.liftExcept (r : Except Hint.Problem α) :
    Ends r.isOk (fun a => r = .ok a) (localizeText.liftExcept r) := by
  cases r with
  | ok a => exact fun _ => ⟨rfl, rfl⟩
  | error e => exact fun _ => rfl

theorem Ends.bind {m : ExceptT Hint.Problem Adding α} {f : α → ExceptT Hint.Problem Adding β}
    (hm : Ends ok P m) (hf : ∀ a, P a → Ends again Q (f a)) : Ends (ok && again) Q (m >>= f) := by
  intro added
  have h := hm added
  rw [ExceptT.run_bind, StateT.run_bind]
  generalize m.run.run added = result at h ⊢
  obtain ⟨outcome, added'⟩ := result
  cases outcome with
  | error e =>
    obtain rfl : ok = false := h
    rfl
  | ok a =>
    obtain ⟨rfl, ha⟩ := h
    exact hf a ha added'

theorem Ends.mapM {R : α → β → Prop} {f : α → ExceptT Hint.Problem Adding β}
    (hf : ∀ a, Ends true (R a) (f a)) (xs : List α) :
    Ends true (List.Forall₂ R xs) (xs.mapM f) := by
  induction xs with
  | nil => exact .pure .nil
  | cons x xs ih =>
    rw [List.mapM_cons]
    exact (hf x).bind fun _ hy => ih.bind fun _ hys => .pure (.cons hy hys)

end Ends

/-- Whether a function can be written: its signature can be made, and its return annotation is a
hint. -/
def writable (scope : Scope) (owner : Option SourceClass) (f : SourceFunction) : Bool :=
  (Signature.synthesize scope.settings scope.index f owner).isOk &&
    f.returnText.all fun text => (Hint.parse text).isOk

theorem ends_localizeText (scope : Scope) (text : String) :
    Ends (Hint.parse text).isOk (fun _ => True) (scope.localizeText text) := by
  rw [← Bool.and_true (Hint.parse text).isOk]
  exact (Ends.liftExcept _).bind fun hint _ =>
    (Ends.lift (P := fun _ => True) fun _ => trivial).bind fun spelled _ => .any spelled.render

theorem ends_returnText (scope : Scope) (f : SourceFunction) :
    Ends (f.returnText.all fun text => (Hint.parse text).isOk) (fun _ => True)
      (scope.returnText f) := by
  unfold returnText
  cases f.returnText with
  | some text =>
    rw [Option.all_some, ← Bool.and_true (Hint.parse text).isOk]
    exact (scope.ends_localizeText text).bind fun spelled _ => .any (some spelled)
  | none =>
    dsimp only [Option.all_none]
    split
    · exact .any _
    · cases f.inferredReturn with
      | some hint =>
        exact (Ends.lift (P := fun _ => True) fun _ => trivial).bind fun spelled _ => .any _
      | none => exact .any _

/-- What a function is written as, apart from the wording of its parameters and what it returns. -/
structure FrameOf (scope : Scope) (owner : Option SourceClass) (f : SourceFunction)
    (built : StubFunction) : Prop where
  /-- The name is that of the function. -/
  name : built.name = f.name
  /-- The decorators are those that stay. -/
  decorators : built.decorators = scope.decorators owner f.decorators
  /-- The parameters are those of its signature. -/
  params : ∃ signature, Signature.synthesize scope.settings scope.index f owner = .ok signature ∧
    List.Forall₂ (fun p q => q.name = p.name ∧ q.kind = p.kind) signature built.params

theorem paramText_run (scope : Scope) (p : StubParameter) (added : List Import) :
    ((scope.paramText p).run added).1.name = p.name ∧
      ((scope.paramText p).run added).1.kind = p.kind := by
  unfold paramText
  split <;> exact ⟨rfl, rfl⟩

/-- **A function is written just when it can be.** -/
theorem ends_function (scope : Scope) (owner : Option SourceClass) (f : SourceFunction) :
    Ends (scope.writable owner f) (scope.FrameOf owner f) (scope.function f owner) := by
  -- one factor for each step: the signature, the wording of its parameters, what it returns
  have hparts : scope.writable owner f =
      ((Signature.synthesize scope.settings scope.index f owner).isOk &&
        (true && ((f.returnText.all fun text => (Hint.parse text).isOk) && true))) := by
    simp [writable]
  rw [hparts]
  exact (Ends.liftExcept _).bind fun signature hsignature =>
    (Ends.mapM (fun p => .lift (scope.paramText_run p)) signature).bind fun params hparams =>
      (scope.ends_returnText f).bind fun returns _ => .pure ⟨rfl, rfl, signature, hsignature, hparams⟩

/-- Whether `built` is how the function `f` of `owner` is written after some imports were added. -/
def WritesFunction (scope : Scope) (owner : Option SourceClass) (f : SourceFunction)
    (built : StubFunction) : Prop :=
  ∃ added, ((scope.function f owner).run.run added).1 = .ok built

theorem WritesFunction.frameOf {f : SourceFunction} {built : StubFunction}
    (h : scope.WritesFunction owner f built) : scope.FrameOf owner f built := by
  obtain ⟨added, hrun⟩ := h
  have hends := scope.ends_function owner f added
  rw [hrun] at hends
  exact hends.2

/-- Whether a function fails does not depend on the imports. -/
theorem function_isOk (scope : Scope) (owner : Option SourceClass) (f : SourceFunction)
    (added : List Import) :
    ((scope.function f owner).run.run added).1.isOk = scope.writable owner f := by
  have hends := scope.ends_function owner f added
  generalize ((scope.function f owner).run.run added).1 = outcome at hends ⊢
  cases outcome with
  | error e => exact Eq.symm hends
  | ok built => exact hends.1.symm

variable {f : SourceFunction} {added : List Import}

theorem exists_error (hfails : scope.writable owner f = false) (added : List Import) :
    ∃ e after, (scope.function f owner).run.run added = (.error e, after) := by
  have hok := scope.function_isOk owner f added
  generalize (scope.function f owner).run.run added = result at hok ⊢
  obtain ⟨outcome, after⟩ := result
  cases outcome with
  | error e => exact ⟨e, after, rfl⟩
  | ok built => exact absurd (hok.trans hfails) (by simp [Except.isOk, Except.toBool])

theorem exists_built (hcan : scope.writable owner f = true) (added : List Import) :
    ∃ built after, (scope.function f owner).run.run added = (.ok built, after) := by
  have hok := scope.function_isOk owner f added
  generalize (scope.function f owner).run.run added = result at hok ⊢
  obtain ⟨outcome, after⟩ := result
  cases outcome with
  | error e => exact absurd (hok.trans hcan) (by simp [Except.isOk, Except.toBool])
  | ok built => exact ⟨built, after, rfl⟩

/-! ### The functions of a module or of a class -/

/-- Whether a function is emitted. -/
def emits (scope : Scope) (owner : Option SourceClass) (f : SourceFunction) : Bool :=
  !scope.excludes f.name f.qualified && scope.writable owner f

/-- The qualified names of those functions that are not left out and cannot be written. -/
def failing (scope : Scope) (owner : Option SourceClass) (fs : List SourceFunction) : List String :=
  (fs.filter fun f => !scope.excludes f.name f.qualified && !scope.writable owner f).map (·.qualified)

/-- The stubs of those functions that are not left out and can be written. -/
def written (scope : Scope) (owner : Option SourceClass) :
    List SourceFunction → Adding (List StubFunction)
  | [] => return []
  | f :: rest => do
    if scope.excludes f.name f.qualified then scope.written owner rest
    else
      match ← (scope.function f owner).run with
      | .ok built => return built :: (← scope.written owner rest)
      | .error _ => scope.written owner rest

section Step

variable {rest : List SourceFunction}

theorem written_excluded (h : scope.excludes f.name f.qualified = true) :
    (scope.written owner (f :: rest)).run added = (scope.written owner rest).run added := by
  rw [written, if_pos h]

theorem written_error {e : Hint.Problem} {after : List Import}
    (hkept : scope.excludes f.name f.qualified = false)
    (hrun : (scope.function f owner).run.run added = (.error e, after)) :
    (scope.written owner (f :: rest)).run added = (scope.written owner rest).run after := by
  rw [written, if_neg (by simp [hkept]), StateT.run_bind, hrun]
  rfl

theorem written_ok {built : StubFunction} {after : List Import}
    (hkept : scope.excludes f.name f.qualified = false)
    (hrun : (scope.function f owner).run.run added = (.ok built, after)) :
    (scope.written owner (f :: rest)).run added =
      (built :: ((scope.written owner rest).run after).1, ((scope.written owner rest).run after).2) := by
  rw [written, if_neg (by simp [hkept]), StateT.run_bind, hrun]
  rfl

end Step

/-- The tally has no say in what is written, and counts it. -/
theorem functionItems_run (scope : Scope) (owner : Option SourceClass) (tally : Tally)
    (fs : List SourceFunction) (added : List Import) :
    (scope.functionItems owner tally fs).run added =
      ((((scope.written owner fs).run added).1, { tally with
        functions := tally.functions + ((scope.written owner fs).run added).1.length
        failed := tally.failed ++ scope.failing owner fs }),
        ((scope.written owner fs).run added).2) := by
  induction fs generalizing tally added with
  | nil =>
    rw [failing, List.filter_nil, List.map_nil, List.append_nil]
    rfl
  | cons f fs ih =>
    rw [functionItems]
    cases hexcluded : scope.excludes f.name f.qualified with
    | true =>
      rw [if_pos rfl, written_excluded hexcluded, ih]
      simp [failing, hexcluded]
    | false =>
      rw [if_neg Bool.false_ne_true, StateT.run_bind]
      cases hcan : scope.writable owner f with
      | false =>
        obtain ⟨e, after, hrun⟩ := exists_error hcan added
        rw [written_error hexcluded hrun, hrun]
        refine (ih _ _).trans ?_
        simp [failing, hexcluded, hcan]
      | true =>
        obtain ⟨built, after, hrun⟩ := exists_built hcan added
        rw [written_ok hexcluded hrun, hrun]
        refine (congrArg (fun r => ((built :: r.1.1, r.1.2), r.2)) (ih _ _)).trans ?_
        simp [failing, hexcluded, hcan, Nat.add_assoc, Nat.add_comm 1]

theorem forall₂_written (scope : Scope) (owner : Option SourceClass) (fs : List SourceFunction)
    (added : List Import) :
    List.Forall₂ (scope.WritesFunction owner) (fs.filter (scope.emits owner))
      ((scope.written owner fs).run added).1 := by
  induction fs generalizing added with
  | nil => exact .nil
  | cons f fs ih =>
    cases hexcluded : scope.excludes f.name f.qualified with
    | true =>
      rw [written_excluded hexcluded, List.filter_cons_of_neg (by simp [emits, hexcluded])]
      exact ih added
    | false =>
      cases hcan : scope.writable owner f with
      | false =>
        obtain ⟨e, after, hrun⟩ := exists_error hcan added
        rw [written_error hexcluded hrun, List.filter_cons_of_neg (by simp [emits, hcan])]
        exact ih after
      | true =>
        obtain ⟨built, after, hrun⟩ := exists_built hcan added
        rw [written_ok hexcluded hrun, List.filter_cons_of_pos (by simp [emits, hexcluded, hcan])]
        exact .cons ⟨added, by rw [hrun]⟩ (ih after)

/-- **Functions are written in their order, and those that cannot be are noted.** -/
theorem functionItems_spec (scope : Scope) (owner : Option SourceClass) (tally : Tally)
    (fs : List SourceFunction) (added : List Import) :
    let written := ((scope.functionItems owner tally fs).run added).1
    List.Forall₂ (scope.WritesFunction owner) (fs.filter (scope.emits owner)) written.1 ∧
      written.2.failed = tally.failed ++ scope.failing owner fs := by
  rw [functionItems_run]
  exact ⟨scope.forall₂_written owner fs added, rfl⟩

/-! ### Attributes and classes -/

theorem exists_of_forall₂ {α β : Type} {R : α → β → Prop} {xs : List α} {ys : List β} {y : β}
    (h : List.Forall₂ R xs ys) (hy : y ∈ ys) : ∃ x ∈ xs, R x y := by
  induction h with
  | nil => cases hy
  | @cons x y' xs ys hxy _ ih =>
    rcases List.mem_cons.1 hy with rfl | hy
    · exact ⟨x, List.mem_cons_self, hxy⟩
    · obtain ⟨x', hx', hr⟩ := ih hy
      exact ⟨x', List.mem_cons_of_mem _ hx', hr⟩

theorem forall₂_mapM_run {σ α β : Type} {R : α → β → Prop} {f : α → StateM σ β}
    (hf : ∀ a s, R a ((f a).run s).1) (xs : List α) (s : σ) :
    List.Forall₂ R xs ((xs.mapM f).run s).1 := by
  induction xs generalizing s with
  | nil => exact .nil
  | cons x xs ih =>
    rw [List.mapM_cons]
    exact .cons (hf x s) (ih _)

/-- Whether an item is an attribute of the name of a declared one. -/
def IsAttribute (a : SourceAttribute) (item : StubItem) : Prop :=
  ∃ hint value, item = .ofAttribute ⟨a.name, hint, value⟩

theorem isAttribute_moduleAttribute (scope : Scope) (a : SourceAttribute) (added : List Import) :
    IsAttribute a ((scope.moduleAttribute a).run added).1 := by
  unfold moduleAttribute
  split
  · exact ⟨_, _, rfl⟩
  · exact ⟨_, _, rfl⟩

theorem mem_freeAttributes {taken : List String} {as : List SourceAttribute} {a : SourceAttribute}
    (h : a ∈ scope.freeAttributes taken as) : a ∈ as ∧ scope.skips a = false ∧ a.name ∉ taken := by
  induction as generalizing taken with
  | nil => cases h
  | cons b as ih =>
    unfold freeAttributes at h
    split at h
    · exact (ih h).imp_left (List.mem_cons_of_mem _)
    · next hfree =>
      rcases List.mem_cons.1 h with rfl | h
      · have hkept : scope.skips a = false ∧ a.name ∉ taken := by simpa using hfree
        exact ⟨List.mem_cons_self, hkept⟩
      · obtain ⟨hmem, hskips, htaken⟩ := ih h
        exact ⟨List.mem_cons_of_mem _ hmem, hskips, mt (List.mem_cons_of_mem _) htaken⟩

theorem exists_of_mem_attributeItems {c : SourceClass} {added : List Import} {item : StubItem}
    (h : item ∈ ((scope.attributeItems c).run added).1) :
    ∃ a ∈ c.classAttributes ++ c.instanceAttributes, scope.skips a = false ∧ IsAttribute a item := by
  have hinted (as : List SourceAttribute) (f : SourceAttribute → Adding StubItem) (taken added)
      (hf : ∀ a s, IsAttribute a ((f a).run s).1)
      (hmem : item ∈ (((scope.freeAttributes taken as).mapM f).run added).1) :
      ∃ a ∈ as, scope.skips a = false ∧ IsAttribute a item := by
    obtain ⟨a, ha, hitem⟩ := exists_of_forall₂ (forall₂_mapM_run hf _ added) hmem
    exact ⟨a, (mem_freeAttributes ha).1, (mem_freeAttributes ha).2.1, hitem⟩
  unfold attributeItems at h
  rw [StateT.run_bind] at h
  rcases List.mem_append.1 h with h | h
  · obtain ⟨a, ha, hitem⟩ := hinted _ _ _ _ (fun _ _ => ⟨_, _, rfl⟩) h
    exact ⟨a, List.mem_append_left _ ha, hitem⟩
  · obtain ⟨a, ha, hitem⟩ := hinted _ _ _ _ (fun _ _ => ⟨_, _, rfl⟩) h
    exact ⟨a, List.mem_append_right _ ha, hitem⟩

/-- What a class is written as: its name, attributes of its own that are not left out, and its methods
that are emitted, in their order. -/
def WritesClass (scope : Scope) (c : SourceClass) (item : StubItem) : Prop :=
  ∃ head attributes methods,
    item = .ofClass head (attributes ++ methods.map .ofFunction) ∧ head.name = c.name ∧
    (∀ a ∈ attributes, ∃ d ∈ c.classAttributes ++ c.instanceAttributes,
      scope.skips d = false ∧ IsAttribute d a) ∧
    List.Forall₂ (scope.WritesFunction (some c)) (c.methods.filter (scope.emits (some c))) methods

/-- The parts of a written class.  The imports that they find are left open: what follows holds for
any. -/
theorem exists_classItem_run (scope : Scope) (tally : Tally) (c : SourceClass) (added : List Import) :
    ∃ head added₁ added₂, head.name = c.name ∧
      ((scope.classItem tally c).run added).1.1 =
        .ofClass head (((scope.attributeItems c).run added₁).1 ++
          ((scope.functionItems (some c) tally c.methods).run added₂).1.1.map .ofFunction) ∧
      ((scope.classItem tally c).run added).1.2.failed =
        ((scope.functionItems (some c) tally c.methods).run added₂).1.2.failed :=
  ⟨_, _, _, rfl, rfl, rfl⟩

/-- **A class is written with its emitted methods, and the others are noted.** -/
theorem writesClass_classItem (scope : Scope) (tally : Tally) (c : SourceClass)
    (added : List Import) :
    let written := ((scope.classItem tally c).run added).1
    scope.WritesClass c written.1 ∧
      written.2.failed = tally.failed ++ scope.failing (some c) c.methods := by
  obtain ⟨head, added₁, added₂, hname, hitem, hfailed⟩ := scope.exists_classItem_run tally c added
  have hmethods := scope.functionItems_spec (some c) tally c.methods added₂
  refine ⟨⟨head, _, _, hitem, hname, ?_, hmethods.1⟩, hfailed.trans hmethods.2⟩
  exact fun a ha => exists_of_mem_attributeItems ha

end Scope
end TypedStubs
