import TypedStubs.Proofs.Loop
import TypedStubs.Source.Walk

/-! # What a walk meets

A walk folds what it notes over the nodes in the order of the source (`walk_eq_foldl`), whatever it notes.  So a
walk that lists the nodes it meets lists each of them once.  It takes one turn for a node and one to find the stack
empty (`walkWithin_eq`).
-/
namespace TypedStubs

variable {Found : Type} {closed : BodyNode → Bool} {note : Found → BodyNode → Found}

/-- **A walk notes the nodes of the stack in the order of the source, each once.** -/
theorem walk_eq_foldl (stack : List BodyNode) (found : Found) :
    walk closed note stack found = (stack.flatMap (BodyNode.nodes closed)).foldl note found := by
  fun_induction walk closed note stack found with
  | case1 => rfl
  | case2 n stack found ih =>
    rw [ih, List.flatMap_cons, BodyNode.nodes_eq closed n, List.cons_append, List.foldl_cons,
      List.flatMap_append]

/-- A walk that lists what it meets lists the nodes. -/
theorem walk_lists (stack : List BodyNode) :
    walk closed (fun met n => met ++ [n]) stack [] = stack.flatMap (BodyNode.nodes closed) := by
  rw [walk_eq_foldl, List.foldl_append_eq_append, List.nil_append, ← List.flatMap_def]
  exact List.flatMap_singleton' _

variable (closed note) in
/-- One turn of a walk: the node on top of the stack is noted, and what is inside takes its place. -/
def walkTurn : List BodyNode × Found → Found ⊕ (List BodyNode × Found)
  | ([], found) => .inl found
  | (n :: stack, found) => .inr (n.entered closed ++ stack, note found n)

variable (closed note) in
/-- What a walk has found that ends within some turns. -/
def walkWithin (turns : Nat) (stack : List BodyNode) (found : Found) : Option Found :=
  Loop.within (walkTurn closed note) turns (stack, found)

theorem walkTurn_ends :
    Loop.Ends (walkTurn closed note) (fun state => walk closed note state.1 state.2)
      (fun state => (state.1.flatMap (BodyNode.nodes closed)).length) where
  stops := by
    rintro ⟨stack, found⟩ a hturn
    cases stack with
    | nil =>
      obtain rfl := Sum.inl.inj hturn
      rw [walk]
    | cons n stack => cases hturn
  goesOn := by
    rintro ⟨stack, found⟩ next hturn
    cases stack with
    | nil => cases hturn
    | cons n stack =>
      obtain rfl := Sum.inr.inj hturn
      refine ⟨by rw [walk], ?_⟩
      simp [BodyNode.nodes_eq closed n]

/-- A walk takes one turn for each node and one to find nothing left. -/
theorem walkWithin_eq {turns : Nat} {stack : List BodyNode} (found : Found)
    (hturns : (stack.flatMap (BodyNode.nodes closed)).length < turns) :
    walkWithin closed note turns stack found = some (walk closed note stack found) :=
  walkTurn_ends.within_eq hturns

end TypedStubs
