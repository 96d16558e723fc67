import Mathlib.Init

/-! # Loops that end

A loop takes turns: each turn answers, or leaves a state for the next turn.  That it ends is said by a bound
on its turns.  There is one argument for it: a measure that every turn makes smaller bounds the turns
(`Ends.within_eq`).

Two loops that take the same turns, but for some at which one of them gives up, answer alike unless that one
gives up on the way (`within_eq_or`).
-/
namespace TypedStubs.Loop

variable {State Answer : Type}

/-- What a loop answers if it ends within some turns. -/
def within (turn : State → Answer ⊕ State) : Nat → State → Option Answer
  | 0, _ => none
  | turns + 1, state =>
    match turn state with
    | .inl answer => some answer
    | .inr next => within turn turns next

/-- Whether every turn of a loop gives the answer for its state, or leaves a smaller state with the same
answer. -/
structure Ends (turn : State → Answer ⊕ State) (answer : State → Answer) (measure : State → Nat) :
    Prop where
  /-- A turn that answers is right. -/
  stops : ∀ state a, turn state = .inl a → answer state = a
  /-- A turn that does not answer changes no answer and comes nearer to the end. -/
  goesOn : ∀ state next, turn state = .inr next →
    answer state = answer next ∧ measure next < measure state

/-- **A loop ends within as many turns as its measure says, and one more.** -/
theorem Ends.within_eq {turn : State → Answer ⊕ State} {answer : State → Answer}
    {measure : State → Nat} (h : Ends turn answer measure) {turns : Nat} {state : State}
    (hturns : measure state < turns) : within turn turns state = some (answer state) := by
  induction turns generalizing state with
  | zero => exact absurd hturns (Nat.not_lt_zero _)
  | succ turns ih =>
    rw [within]
    -- a turn that goes on uses up one of the bound, and at least one of the measure
    cases hturn : turn state with
    | inl a => exact congrArg some (h.stops state a hturn).symm
    | inr next =>
      obtain ⟨hsame, hless⟩ := h.goesOn state next hturn
      rw [hsame]
      exact ih (by omega)

/-- A loop each of whose turns is that of another one, or gives up with an answer `a`, answers what the other
one does, or `a`. -/
theorem within_eq_or {turn turn' : State → Answer ⊕ State} {a : Answer}
    (h : ∀ state, turn state = turn' state ∨ turn state = .inl a) (turns : Nat) (state : State) :
    within turn turns state = within turn' turns state ∨ within turn turns state = some a := by
  induction turns generalizing state with
  | zero => exact .inl rfl
  | succ turns ih =>
    rw [within, within]
    rcases h state with hsame | hgave
    · rw [hsame]
      cases turn' state with
      | inl answer => exact .inl rfl
      | inr next => exact ih next
    · exact .inr (by rw [hgave])

end TypedStubs.Loop
