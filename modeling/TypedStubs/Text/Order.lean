/-! # The order of paths

Sequences of names are told apart by the first place where they differ; one that ends comes before
all that go on from it.  Any two are in order one way round (`inOrder_total`), and two that are in
order both ways are one (`inOrder_antisymm`).  What is in order with something in between is in order
(`inOrder_trans`).
-/
namespace TypedStubs.Text

/-- Whether the first sequence of names comes before the second, or is the same. -/
def inOrder : List String → List String → Bool
  | [], _ => true
  | _ :: _, [] => false
  | a :: as, b :: bs => if a = b then inOrder as bs else decide (a ≤ b)

theorem inOrder_total (as bs : List String) : inOrder as bs || inOrder bs as := by
  fun_induction inOrder as bs with
  | case1 => rfl
  | case2 => simp [inOrder]
  | case3 as a bs ih => simpa [inOrder] using ih
  | case4 a as b bs h =>
    rw [inOrder, if_neg (Ne.symm h)]
    simpa using String.le_total a b

theorem inOrder_antisymm {as bs : List String} (h : inOrder as bs) (h' : inOrder bs as) :
    as = bs := by
  fun_induction inOrder as bs with
  | case1 bs => cases bs <;> simp_all [inOrder]
  | case2 => cases h
  | case3 as a bs ih =>
    rw [inOrder, if_pos rfl] at h'
    rw [ih h h']
  | case4 a as b bs hne =>
    rw [inOrder, if_neg (Ne.symm hne)] at h'
    exact absurd (String.le_antisymm (of_decide_eq_true h) (of_decide_eq_true h')) hne

theorem inOrder_trans {as bs cs : List String} (h : inOrder as bs) (h' : inOrder bs cs) :
    inOrder as cs := by
  induction as generalizing bs cs with
  | nil => cases cs <;> rfl
  | cons a as ih =>
    cases bs with
    | nil => cases h
    | cons b bs =>
      cases cs with
      | nil => cases h'
      | cons c cs =>
        simp only [inOrder] at h h' ⊢
        by_cases hab : a = b
        · subst hab
          by_cases hac : a = c
          · rw [if_pos rfl] at h
            rw [if_pos hac] at h' ⊢
            exact ih h h'
          · rw [if_neg hac] at h' ⊢
            exact h'
        · rw [if_neg hab] at h
          by_cases hbc : b = c
          · rwa [← hbc, if_neg hab]
          · rw [if_neg hbc] at h'
            have hab' := of_decide_eq_true h
            have hbc' := of_decide_eq_true h'
            have hac : a ≠ c := fun heq => hab (String.le_antisymm hab' (heq ▸ hbc'))
            rw [if_neg hac]
            exact decide_eq_true (String.le_trans hab' hbc')

end TypedStubs.Text
