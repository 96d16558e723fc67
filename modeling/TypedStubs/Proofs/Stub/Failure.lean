import TypedStubs.Proofs.Stub.Written

/-! # What a failure leaves behind

A function fails when its signature cannot be made, or when its return annotation is no hint.  The first
is found out before any name is spelled, and leaves no trace but the note of the failure.  The second is
found out after the names of the parameters were spelled, and leaves the imports that these need
(`Scope.leftBehind`), by which later names are spelled.

Emission comes to the same as that of the functions which can be written, if none fails late
(`Scope.functionItems_filter`, `failures_leave_no_trace`).
-/
namespace TypedStubs

/-- A tally with further failures. -/
def Tally.noting (tally : Tally) (names : List String) : Tally :=
  { tally with failed := tally.failed ++ names }

namespace Scope

variable {scope : Scope} {owner : Option SourceClass} {f : SourceFunction} {added : List Import}

/-! ### One function -/

/-- Whether a function fails after names of its signature were spelled. -/
def failsLate (scope : Scope) (owner : Option SourceClass) (f : SourceFunction) : Bool :=
  (Signature.synthesize scope.settings scope.index f owner).isOk &&
    !f.returnText.all fun text => (Hint.parse text).isOk

/-- The imports that are there when a function has failed. -/
def leftBehind (scope : Scope) (owner : Option SourceClass) (f : SourceFunction)
    (added : List Import) : List Import :=
  match Signature.synthesize scope.settings scope.index f owner with
  | .ok signature => ((signature.mapM scope.paramText).run added).2
  | .error _ => added

section Run

variable {α β : Type} {m : ExceptT Hint.Problem Adding α} {k : α → ExceptT Hint.Problem Adding β}
  {after : List Import}

theorem run_bind_ok {a : α} (h : m.run.run added = (.ok a, after)) :
    (m >>= k).run.run added = (k a).run.run after := by
  rw [ExceptT.run_bind, StateT.run_bind, h]
  rfl

theorem run_bind_error {e : Hint.Problem} (h : m.run.run added = (.error e, after)) :
    (m >>= k).run.run added = (.error e, after) := by
  rw [ExceptT.run_bind, StateT.run_bind, h]
  rfl

theorem run_mapM (g : α → Adding β) (xs : List α) (added : List Import) :
    (xs.mapM fun x => (liftM (g x) : ExceptT Hint.Problem Adding β)).run.run added =
      (.ok ((xs.mapM g).run added).1, ((xs.mapM g).run added).2) := by
  induction xs generalizing added with
  | nil => rfl
  | cons x xs ih =>
    have hstep : (liftM (g x) : ExceptT Hint.Problem Adding β).run.run added =
        (.ok ((g x).run added).1, ((g x).run added).2) := rfl
    rw [List.mapM_cons, List.mapM_cons, run_bind_ok hstep, run_bind_ok (ih _)]
    rfl

end Run

/-- A return annotation that is no hint adds nothing. -/
theorem returnText_run_error {text : String} {e : Hint.Problem} (htext : f.returnText = some text)
    (hparse : Hint.parse text = .error e) (added : List Import) :
    (scope.returnText f).run.run added = (.error e, added) := by
  rw [returnText, htext]
  refine run_bind_error (run_bind_error ?_)
  rw [hparse]
  rfl

/-- A function whose signature can be made fails by its return annotation. -/
theorem exists_returnText {signature : List StubParameter} (hfails : scope.writable owner f = false)
    (hsignature : Signature.synthesize scope.settings scope.index f owner = .ok signature) :
    ∃ text e, f.returnText = some text ∧ Hint.parse text = .error e := by
  cases htext : f.returnText with
  | none => simp [writable, hsignature, htext, Except.isOk, Except.toBool] at hfails
  | some text =>
    cases hparse : Hint.parse text with
    | ok hint => simp [writable, hsignature, htext, hparse, Except.isOk, Except.toBool] at hfails
    | error e => exact ⟨text, e, rfl, hparse⟩

/-- A function that fails has spelled the names of its parameters, or none. -/
theorem function_leaves (hfails : scope.writable owner f = false) (added : List Import) :
    ((scope.function f owner).run.run added).2 = scope.leftBehind owner f added := by
  unfold function leftBehind
  cases hsignature : Signature.synthesize scope.settings scope.index f owner with
  | error e => rfl
  | ok signature =>
    -- the names of the parameters are spelled by now, and the return annotation comes too late
    obtain ⟨text, e, htext, hparse⟩ := exists_returnText hfails hsignature
    have hread : (localizeText.liftExcept (.ok signature)).run.run added = (.ok signature, added) := rfl
    rw [run_bind_ok hread, run_bind_ok (run_mapM scope.paramText signature added),
      run_bind_error (returnText_run_error htext hparse _)]

/-- A function that fails before names of its signature were spelled leaves nothing behind. -/
theorem leftBehind_eq (hfails : scope.writable owner f = false)
    (hearly : scope.failsLate owner f = false) (added : List Import) :
    scope.leftBehind owner f added = added := by
  unfold leftBehind
  cases hsignature : Signature.synthesize scope.settings scope.index f owner with
  | error e => rfl
  | ok signature =>
    obtain ⟨text, e, htext, hparse⟩ := exists_returnText hfails hsignature
    simp [failsLate, hsignature, htext, hparse, Except.isOk, Except.toBool] at hearly

/-- The imports after a function has failed. -/
theorem eq_leftBehind {e : Hint.Problem} {after : List Import}
    (hrun : (scope.function f owner).run.run added = (.error e, after)) :
    after = scope.leftBehind owner f added ∧ (scope.failsLate owner f = false → after = added) := by
  have hfails : scope.writable owner f = false := by
    rw [← scope.function_isOk owner f added, hrun]
    rfl
  have hleaves := function_leaves hfails added
  rw [hrun] at hleaves
  exact ⟨hleaves, fun hearly => hleaves.trans (leftBehind_eq hfails hearly added)⟩

/-! ### The functions of a module or of a class -/

/-- Whether no function that is not left out fails after names of its signature were spelled. -/
def FailEarly (scope : Scope) (owner : Option SourceClass) (fs : List SourceFunction) : Prop :=
  ∀ f ∈ fs, scope.excludes f.name f.qualified = false → scope.failsLate owner f = false

instance (scope : Scope) (owner : Option SourceClass) (fs : List SourceFunction) :
    Decidable (scope.FailEarly owner fs) :=
  inferInstanceAs (Decidable (∀ f ∈ fs, _ → _))

/-- What is written comes to the same without the functions that cannot be, if none fails late. -/
theorem written_filter {fs : List SourceFunction} (hearly : scope.FailEarly owner fs)
    (added : List Import) :
    (scope.written owner fs).run added =
      (scope.written owner (fs.filter (scope.writable owner))).run added := by
  induction fs generalizing added with
  | nil => rfl
  | cons f fs ih =>
    obtain ⟨hf, hfs⟩ := List.forall_mem_cons.1 hearly
    cases hexcluded : scope.excludes f.name f.qualified with
    | true =>
      rw [written_excluded hexcluded, ih hfs, List.filter_cons]
      split
      · rw [written_excluded hexcluded]
      · rfl
    | false =>
      cases hcan : scope.writable owner f with
      | false =>
        -- the functions after it start from the imports that were there before it
        obtain ⟨e, after, hrun⟩ := exists_error hcan added
        obtain rfl := (eq_leftBehind hrun).2 (hf hexcluded)
        rw [written_error hexcluded hrun, List.filter_cons_of_neg (by simp [hcan]), ih hfs]
      | true =>
        obtain ⟨built, after, hrun⟩ := exists_built hcan added
        rw [List.filter_cons_of_pos hcan, written_ok hexcluded hrun, written_ok hexcluded hrun, ih hfs]

theorem failing_filter (scope : Scope) (owner : Option SourceClass) (fs : List SourceFunction) :
    scope.failing owner (fs.filter (scope.writable owner)) = [] := by
  simp [failing, List.filter_filter]

/-- Functions that cannot be written are noted, and change nothing else, if none fails late. -/
theorem functionItems_filter {fs : List SourceFunction} (hearly : scope.FailEarly owner fs)
    (tally : Tally) (added : List Import) :
    let result := (scope.functionItems owner tally (fs.filter (scope.writable owner))).run added
    (scope.functionItems owner tally fs).run added =
      ((result.1.1, result.1.2.noting (scope.failing owner fs)), result.2) := by
  simp only [functionItems_run, written_filter hearly, failing_filter, List.append_nil]
  rfl

/-- The stub of a class that has only some of its methods. -/
def classItemOf (scope : Scope) (tally : Tally) (c : SourceClass) (methods : List SourceFunction) :
    Adding (StubItem × Tally) := do
  let bases ← c.bases.mapM scope.base
  let attributes ← scope.attributeItems c
  let (built, tally) ← scope.functionItems (some c) tally methods
  return (.ofClass ⟨c.name, scope.decorators none c.decorators, bases⟩
      (attributes ++ built.map .ofFunction),
    { tally with classes := tally.classes + 1 })

theorem classItem_filter {c : SourceClass} (hearly : scope.FailEarly (some c) c.methods)
    (tally : Tally) (added : List Import) :
    let result := (scope.classItemOf tally c (c.methods.filter (scope.writable (some c)))).run added
    (scope.classItem tally c).run added =
      ((result.1.1, result.1.2.noting (scope.failing (some c) c.methods)), result.2) := by
  let bases := (c.bases.mapM scope.base).run added
  let attributes := (scope.attributeItems c).run bases.2
  have hrun (methods : List SourceFunction) :
      let built := (scope.functionItems (some c) tally methods).run attributes.2
      (scope.classItemOf tally c methods).run added =
        ((.ofClass ⟨c.name, scope.decorators none c.decorators, bases.1⟩
            (attributes.1 ++ built.1.1.map .ofFunction),
          { built.1.2 with classes := built.1.2.classes + 1 }), built.2) := rfl
  have hall : scope.classItem tally c = scope.classItemOf tally c c.methods := rfl
  simp only [hall, hrun, functionItems_filter hearly]
  rfl

end Scope

namespace Emission

/-- The emission of only some functions. -/
def functionsOf (scope : Scope) (e : Emission) (fs : List SourceFunction) : Emission :=
  let ((built, tally), added) := (scope.functionItems none e.tally fs).run e.added
  built.foldl (fun e f => e.merge (.ofFunction f)) { e with added, tally }

/-- An emission with further failures. -/
def noting (e : Emission) (names : List String) : Emission := { e with tally := e.tally.noting names }

theorem foldl_merge_noting (e : Emission) (names : List String) (built : List StubFunction) :
    built.foldl (fun e f => e.merge (.ofFunction f)) (e.noting names) =
      (built.foldl (fun e f => e.merge (.ofFunction f)) e).noting names := by
  induction built generalizing e with
  | nil => rfl
  | cons f built ih => exact ih (e.merge (.ofFunction f))

theorem functions_filter {scope : Scope} (hearly : scope.FailEarly none scope.module.functions)
    (e : Emission) :
    e.functions scope = (e.functionsOf scope
      (scope.module.functions.filter (scope.writable none))).noting
        (scope.failing none scope.module.functions) := by
  unfold functions functionsOf
  simp only [Scope.functionItems_filter hearly]
  generalize (scope.functionItems none e.tally (scope.module.functions.filter (scope.writable none))).run
    e.added = result
  exact foldl_merge_noting ⟨e.items, result.2, result.1.2⟩ _ result.1.1

end Emission

/-- **A failure leaves no trace but its note, unless it comes late.**  A function that fails late leaves the
imports that its parameters need. -/
theorem failures_leave_no_trace (scope : Scope) :
    (∀ owner f added e after, (scope.function f owner).run.run added = (.error e, after) →
      after = scope.leftBehind owner f added ∧
        (scope.failsLate owner f = false → after = added)) ∧
    (∀ tally c added, scope.FailEarly (some c) c.methods →
      let result := (scope.classItemOf tally c (c.methods.filter (scope.writable (some c)))).run added
      (scope.classItem tally c).run added =
        ((result.1.1, result.1.2.noting (scope.failing (some c) c.methods)), result.2)) ∧
    ∀ e : Emission, scope.FailEarly none scope.module.functions →
      e.functions scope = (e.functionsOf scope
        (scope.module.functions.filter (scope.writable none))).noting
          (scope.failing none scope.module.functions) := by
  exact ⟨fun owner f added e after hrun => Scope.eq_leftBehind hrun,
    fun tally c added hearly => Scope.classItem_filter hearly tally added,
    fun e hearly => Emission.functions_filter hearly e⟩

/-- A function of a module `paths` with one annotated parameter. -/
def pathFunction (name hintText : String) (returnText : Option String) : SourceFunction where
  name := name
  qualified := "paths." ++ name
  module := "paths"
  decorators := []
  docstring := none
  params := [⟨"x", .positional, some hintText, none⟩]
  returnText := returnText
  inferredReturn := none
  isAsync := false

/-- The scope of that module among others which import one thing under two names. -/
def pathScope (fs : List SourceFunction) : Scope :=
  let module : SourceModule := ⟨"paths", "paths.py", false, none, [], fs.map .ofFunction⟩
  .onto .standard ⟨[⟨"alias", "alias.py", false, none, [.member "os" "path" (some "A")], []⟩,
    ⟨"plain", "plain.py", false, none, [.member "os" "path" none], []⟩, module]⟩ module .empty

/-- The parameter of the first function is no hint, and the second is emitted as it is alone. -/
theorem failures_leave_no_trace_early :
    let fs := [pathFunction "f" "x()" none, pathFunction "g" "path" none]
    let scope := pathScope fs
    scope.FailEarly none scope.module.functions ∧ scope.failing none scope.module.functions = ["paths.f"] ∧
      (Emission.start []).functions scope =
        ((Emission.start []).functionsOf scope [pathFunction "g" "path" none]).noting ["paths.f"] ∧
      ((Emission.start []).functions scope).added = [.member "os" "path" none] := by
  intro fs scope
  have hearly : scope.FailEarly none scope.module.functions := by decide +kernel
  have hfailing : scope.failing none scope.module.functions = ["paths.f"] := by decide +kernel
  have hrest : scope.module.functions.filter (scope.writable none) = [pathFunction "g" "path" none] := by
    decide +kernel
  have hall := (failures_leave_no_trace scope).2.2 (.start []) hearly
  rw [hfailing, hrest] at hall
  exact ⟨hearly, hfailing, hall, by decide +kernel⟩

/-- What the first function returns is no hint.  It fails and leaves the import that its parameter needs,
by which the name in the second one is spelled in another way. -/
theorem late_failure_leaves_import :
    let late := pathFunction "f" "A" (some "x()")
    let scope := pathScope [late, pathFunction "g" "path" none]
    let after := ((scope.function late none).run.run []).2
    ((scope.function late none).run.run []).1.isOk = false ∧
      after = [.member "os" "path" (some "A")] ∧
      ((scope.localizeName "path").run []).1 = "path" ∧
      ((scope.localizeName "path").run after).1 = "A" := by
  decide +kernel

end TypedStubs
