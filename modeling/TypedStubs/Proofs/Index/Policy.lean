import TypedStubs.Proofs.Index.Redirect

/-! # A stricter policy for look-ups

Borrowed documentation is looked up function by function, and the policy decides which of several candidates
answers.  Where the strict policy answers, there is one candidate, and the lenient policy takes the same one.
So the searches for the end of a chain take the same turns under both (`redirectTurn_unique`) until the strict
one gives up, and the strict one answers what the lenient one does, or nothing (`resolveRedirect?_unique`).  It
answers exactly if every target on the chain has one candidate (`stricter_policy_only_removes`).
-/
namespace TypedStubs

theorem MatchPolicy.pick_first {α : Type} (candidates : List α) :
    MatchPolicy.first.pick candidates = candidates.head? := by
  cases candidates <;> rfl

theorem MatchPolicy.pick_unique_eq_some {α : Type} {candidates : List α} {a : α} :
    MatchPolicy.unique.pick candidates = some a ↔ candidates = [a] := by
  rcases candidates with _ | ⟨first, _ | ⟨second, rest⟩⟩ <;> simp [MatchPolicy.pick]

/-- The strict policy picks what the lenient one picks, or nothing. -/
theorem MatchPolicy.pick_unique_or {α : Type} (candidates : List α) :
    MatchPolicy.unique.pick candidates = MatchPolicy.first.pick candidates ∨
      MatchPolicy.unique.pick candidates = none := by
  cases hpick : MatchPolicy.unique.pick candidates with
  | none => exact .inr rfl
  | some a =>
    rw [pick_unique_eq_some.1 hpick]
    exact .inl rfl

/-- The same settings with another policy. -/
def Settings.withPolicy (s : Settings) (policy : MatchPolicy) : Settings := { s with matchPolicy := policy }

namespace SourceIndex

variable {index : SourceIndex} {s : Settings} {policy : MatchPolicy} {f g : SourceFunction}
  {chain : List SourceFunction}

/-! ### The same turns -/

/-- Whether and from what a function borrows is no matter of the policy. -/
@[simp] theorem redirectTarget?_withPolicy (s : Settings) (policy : MatchPolicy) (f : SourceFunction) :
    redirectTarget? (s.withPolicy policy) f = redirectTarget? s f := rfl

theorem targetFunction?_withPolicy (index : SourceIndex) (s : Settings) (policy : MatchPolicy)
    (target : String) : index.targetFunction? (s.withPolicy policy) target =
      policy.pick (index.functionsMatching (Dotted.leaf target) target) := rfl

/-- A turn of the search under the strict policy is the turn under the lenient one, or finds nothing. -/
theorem redirectTurn_unique (index : SourceIndex) (s : Settings) (state : List String × String) :
    index.redirectTurn (s.withPolicy .unique) state = index.redirectTurn (s.withPolicy .first) state ∨
      index.redirectTurn (s.withPolicy .unique) state = .inl none := by
  obtain ⟨passed, target⟩ := state
  simp only [redirectTurn, targetFunction?_withPolicy, redirectTarget?_withPolicy]
  rcases MatchPolicy.pick_unique_or (index.functionsMatching (Dotted.leaf target) target) with h | h
  · exact .inl (by rw [h])
  · exact .inr (by rw [h])

/-- So is the search, however many functions it looks up. -/
theorem resolveWithin_unique (index : SourceIndex) (s : Settings) (lookUps : Nat) (f : SourceFunction) :
    index.resolveWithin (s.withPolicy .unique) lookUps f =
        index.resolveWithin (s.withPolicy .first) lookUps f ∨
      index.resolveWithin (s.withPolicy .unique) lookUps f = some none := by
  simp only [resolveWithin, redirectTarget?_withPolicy]
  cases redirectTarget? s f with
  | none => exact .inl rfl
  | some target => exact Loop.within_eq_or (index.redirectTurn_unique s) lookUps _

theorem resolveRedirect?_unique (index : SourceIndex) (s : Settings) (f : SourceFunction) :
    index.resolveRedirect? (s.withPolicy .unique) f = index.resolveRedirect? (s.withPolicy .first) f ∨
      index.resolveRedirect? (s.withPolicy .unique) f = none := by
  have henough := Nat.lt_succ_self index.functions.length
  have hrun := index.resolveWithin_unique s (index.functions.length + 1) f
  rw [index.resolveWithin_eq _ f henough, index.resolveWithin_eq _ f henough] at hrun
  exact hrun.imp Option.some.inj Option.some.inj

/-! ### Where the strict policy answers -/

/-- Whether the target of a function, if it has one, has no more than one candidate. -/
def IsUnambiguous (index : SourceIndex) (s : Settings) (f : SourceFunction) : Prop :=
  ∀ target ∈ redirectTarget? s f, (index.functionsMatching (Dotted.leaf target) target).length ≤ 1

instance (index : SourceIndex) (s : Settings) (f : SourceFunction) :
    Decidable (index.IsUnambiguous s f) :=
  inferInstanceAs (Decidable (∀ target ∈ redirectTarget? s f, _ ≤ 1))

theorem borrowsFrom_unique_iff :
    index.BorrowsFrom (s.withPolicy .unique) f g ↔
      index.BorrowsFrom (s.withPolicy .first) f g ∧ index.IsUnambiguous s f := by
  simp only [BorrowsFrom, redirectTarget?_withPolicy, targetFunction?_withPolicy, IsUnambiguous,
    MatchPolicy.pick_first, MatchPolicy.pick_unique_eq_some, Option.mem_def]
  constructor
  · rintro ⟨target, htarget, honly⟩
    refine ⟨⟨target, htarget, by rw [honly]; rfl⟩, fun target' htarget' => ?_⟩
    obtain rfl := Option.some.inj (htarget.symm.trans htarget')
    exact Nat.le_of_eq (congrArg List.length honly)
  · rintro ⟨⟨target, htarget, hhead⟩, hunambiguous⟩
    obtain ⟨rest, hrest⟩ := List.head?_eq_some_iff.1 hhead
    have hlength := hunambiguous target htarget
    rw [hrest] at hlength
    obtain rfl := List.length_eq_zero_iff.1 (Nat.le_zero.1 (Nat.le_of_succ_le_succ hlength))
    exact ⟨target, htarget, hrest⟩

/-- A chain under the strict policy is one under the lenient policy on which every target has one
candidate. -/
theorem isRedirectChain_unique_iff :
    index.IsRedirectChain (s.withPolicy .unique) chain ↔
      index.IsRedirectChain (s.withPolicy .first) chain ∧ ∀ f ∈ chain, index.IsUnambiguous s f := by
  constructor
  · rintro ⟨hborrows, hdistinct, hends⟩
    refine ⟨⟨hborrows.imp fun _ _ h => (borrowsFrom_unique_iff.1 h).1, hdistinct, hends⟩, fun f hf => ?_⟩
    -- a function on the chain borrows from the next one, or is the last one, which has no target
    obtain ⟨front, rest, rfl⟩ := List.append_of_mem hf
    cases rest with
    | nil =>
      intro target htarget
      have hnone := hends f (by simp)
      rw [redirectTarget?_withPolicy, Option.mem_def.1 htarget] at hnone
      cases hnone
    | cons g rest =>
      have hlink := List.isChain_append_cons_cons.1 hborrows
      exact (borrowsFrom_unique_iff.1 hlink.2.1).2
  · rintro ⟨⟨hborrows, hdistinct, hends⟩, hunambiguous⟩
    refine ⟨hborrows.imp_of_mem_imp fun f _ hf _ h => ?_, hdistinct, hends⟩
    exact borrowsFrom_unique_iff.2 ⟨h, hunambiguous f hf⟩

/-- **A stricter policy only takes answers away.**  Where the strict policy finds the function that `f` borrows
from, the lenient one finds the same; and the strict one finds it exactly if every function on the chain has a
target with one candidate.  So a docstring that counts under the strict policy counts under the lenient one. -/
theorem stricter_policy_only_removes (index : SourceIndex) (s : Settings) (f : SourceFunction) :
    (∀ g, index.resolveRedirect? (s.withPolicy .unique) f = some g →
      index.resolveRedirect? (s.withPolicy .first) f = some g) ∧
    (∀ g, index.resolveRedirect? (s.withPolicy .unique) f = some g ↔
      ∃ chain, chain.getLast? = some g ∧ index.IsRedirectChain (s.withPolicy .first) (f :: chain) ∧
        ∀ h ∈ f :: chain, index.IsUnambiguous s h) ∧
    ∀ docstring, index.effectiveDocstring? (s.withPolicy .unique) f = some docstring →
      index.effectiveDocstring? (s.withPolicy .first) f = some docstring := by
  have hsame : ∀ g, index.resolveRedirect? (s.withPolicy .unique) f = some g →
      index.resolveRedirect? (s.withPolicy .first) f = some g := by
    intro g hg
    rcases index.resolveRedirect?_unique s f with h | h
    · exact h ▸ hg
    · rw [h] at hg
      cases hg
  refine ⟨hsame, fun g => ?_, fun docstring hdocs => ?_⟩
  · rw [resolveRedirect?_eq_some_iff]
    simp only [isRedirectChain_unique_iff]
  · simp only [effectiveDocstring?, redirectTarget?_withPolicy] at hdocs ⊢
    cases htarget : redirectTarget? s f with
    | none => rwa [htarget] at hdocs
    | some target =>
      rw [htarget] at hdocs
      obtain ⟨g, hg, hdocstring⟩ := Option.bind_eq_some_iff.1 hdocs
      exact Option.bind_eq_some_iff.2 ⟨g, hsame g hg, hdocstring⟩

/-- Functions of which `draw` borrows from `sketch` and `sketch` from one of two that are named `plot`. -/
def plots : SourceIndex :=
  functionsIn [borrower "draw" [.reference "pkg.sketch"] none, borrower "sketch" [.reference "pkg.plot"] none,
    plainPlot, { plainPlot with qualified := "pkg.axes.plot", docstring := none }]

theorem stricter_policy_only_removes_draw :
    let draw := borrower "draw" [.reference "pkg.sketch"] none
    plots.resolveRedirect? (Settings.standard.withPolicy .unique) draw = some plainPlot ∧
      plots.resolveRedirect? (Settings.standard.withPolicy .first) draw = some plainPlot ∧
      plots.effectiveDocstring? (Settings.standard.withPolicy .first) draw = some "Plots lines." := by
  intro draw
  have hdraw : plots.resolveRedirect? (Settings.standard.withPolicy .unique) draw = some plainPlot := by
    decide +kernel
  have hdocs : plots.effectiveDocstring? (Settings.standard.withPolicy .unique) draw =
      some "Plots lines." := by
    decide +kernel
  have hremoves := stricter_policy_only_removes plots .standard draw
  exact ⟨hdraw, hremoves.1 _ hdraw, hremoves.2.2 _ hdocs⟩

-- both functions named `plot` are candidates for a target that is no more than this name
example :
    let vague := borrower "vague" [.reference "plot"] none
    ¬ plots.IsUnambiguous .standard vague ∧
      plots.resolveRedirect? (Settings.standard.withPolicy .unique) vague = none ∧
      plots.resolveRedirect? (Settings.standard.withPolicy .first) vague = some plainPlot := by
  decide +kernel

end SourceIndex

end TypedStubs
