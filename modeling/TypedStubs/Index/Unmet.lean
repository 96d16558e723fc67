/-! # What a search has not met

A search that enters nothing twice ends, because what it has not met gets less.  Things are told apart
by a key, and each has a weight.  `unmet_met` is the step: meeting something new takes its weight
away.
-/
namespace TypedStubs

/-- The weight of the things in `xs`, met or not. -/
def total {α : Type} (weight : α → Nat) : List α → Nat
  | [] => 0
  | x :: xs => weight x + total weight xs

theorem total_cons {α : Type} (weight : α → Nat) (x : α) (xs : List α) :
    total weight (x :: xs) = weight x + total weight xs := rfl

theorem total_append {α : Type} (weight : α → Nat) (xs ys : List α) :
    total weight (xs ++ ys) = total weight xs + total weight ys := by
  induction xs with
  | nil => exact (Nat.zero_add _).symm
  | cons x xs ih => rw [List.cons_append, total_cons, total_cons, ih, Nat.add_assoc]

/-- Things that weigh one each are as many as they weigh. -/
theorem total_eq_length {α : Type} {weight : α → Nat} {xs : List α}
    (h : ∀ x ∈ xs, weight x = 1) : total weight xs = xs.length := by
  induction xs with
  | nil => rfl
  | cons x xs ih =>
    rw [total_cons, h x List.mem_cons_self, ih fun y hy => h y (List.mem_cons_of_mem _ hy),
      List.length_cons, Nat.add_comm]

/-- The weight of the things in `xs` whose key is not among those met. -/
def unmet {α : Type} (key : α → String) (weight : α → Nat) (met : List String) : List α → Nat
  | [] => 0
  | x :: xs => (if key x ∈ met then 0 else weight x) + unmet key weight met xs

theorem unmet_cons {α : Type} (key : α → String) (weight : α → Nat) (met : List String) (x : α)
    (xs : List α) :
    unmet key weight met (x :: xs) =
      (if key x ∈ met then 0 else weight x) + unmet key weight met xs := rfl

/-- What was not met weighs no more than everything. -/
theorem unmet_le_total {α : Type} (key : α → String) (weight : α → Nat) (met : List String)
    (xs : List α) : unmet key weight met xs ≤ total weight xs := by
  induction xs with
  | nil => exact Nat.le_refl 0
  | cons x xs ih =>
    simp only [unmet_cons, total_cons]
    split <;> omega

/-- Meeting more leaves no more unmet. -/
theorem unmet_antitone {α : Type} (key : α → String) (weight : α → Nat) (met : List String)
    (k : String) (xs : List α) : unmet key weight (k :: met) xs ≤ unmet key weight met xs := by
  induction xs with
  | nil => simp [unmet]
  | cons x xs ih =>
    simp only [unmet_cons, List.mem_cons]
    by_cases h : key x ∈ met <;> by_cases hk : key x = k <;> simp [h, hk] <;> omega

theorem unmet_met {α : Type} {key : α → String} (weight : α → Nat) {met : List String} {x : α}
    {xs : List α} (hx : x ∈ xs) (hk : key x ∉ met) :
    unmet key weight (key x :: met) xs + weight x ≤ unmet key weight met xs := by
  induction xs with
  | nil => simp at hx
  | cons y ys ih =>
    simp only [unmet_cons, List.mem_cons]
    rcases List.mem_cons.1 hx with rfl | hy
    · have := unmet_antitone key weight met (key x) ys
      simp only [hk, true_or, if_true, if_false]
      omega
    · have := ih hy
      by_cases hym : key y ∈ met <;> by_cases hyx : key y = key x <;>
        simp only [hym, hyx, true_or, or_true, or_self, if_true, if_false] <;> omega

end TypedStubs
