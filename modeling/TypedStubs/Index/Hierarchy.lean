import TypedStubs.Index.Base
import TypedStubs.Index.Unmet

/-! # Searching a class and its bases

A search asks a class, then its bases from left to right, each with its own bases before the next.  No
qualified name is entered twice, so bases that lead back to a class do no harm.  It ends because
entering a class uses up the weight that the class and its bases had (`searchMeasure_entered`).
-/
namespace TypedStubs.SourceIndex

/-- What a class counts for as long as it was not entered: itself and its bases. -/
def searchWeight (c : SourceClass) : Nat := c.bases.length + 1

/-- What a class counts for while it is pending.  The bases of an indexed one are counted with the
index. -/
def pendingWeight (index : SourceIndex) (c : SourceClass) : Nat :=
  if c ∈ index.classes then 1 else searchWeight c

/-- What is left of a search: the classes that were not entered, and those that are pending. -/
def searchMeasure (index : SourceIndex) (entered : List String) (pending : List SourceClass) : Nat :=
  unmet SourceClass.qualified searchWeight entered index.classes + total index.pendingWeight pending

theorem pendingWeight_pos (index : SourceIndex) (c : SourceClass) : 0 < index.pendingWeight c := by
  rw [pendingWeight]
  split
  · exact Nat.one_pos
  · exact Nat.succ_pos _

theorem searchMeasure_passed (index : SourceIndex) (entered : List String) (c : SourceClass)
    (rest : List SourceClass) :
    index.searchMeasure entered rest < index.searchMeasure entered (c :: rest) := by
  have hpos := index.pendingWeight_pos c
  simp only [searchMeasure, total_cons]
  omega

/-- Pending bases count once each, since they are indexed. -/
theorem total_pendingWeight_basesOf (index : SourceIndex) (policy : MatchPolicy) (c : SourceClass) :
    total index.pendingWeight (index.basesOf policy c) ≤ c.bases.length := by
  have hone : ∀ b ∈ index.basesOf policy c, index.pendingWeight b = 1 := fun b hb =>
    if_pos (basesOf_mem hb)
  rw [total_eq_length hone]
  exact length_basesOf_le index policy c

theorem searchMeasure_entered (index : SourceIndex) (policy : MatchPolicy) {entered : List String}
    {c : SourceClass} (hnew : c.qualified ∉ entered) (rest : List SourceClass) :
    index.searchMeasure (c.qualified :: entered) (index.basesOf policy c ++ rest) <
      index.searchMeasure entered (c :: rest) := by
  have bases := index.total_pendingWeight_basesOf policy c
  simp only [searchMeasure, total_append, total_cons]
  -- an indexed class has its weight in the index, any other among the pending ones
  by_cases hc : c ∈ index.classes
  · have met := unmet_met searchWeight hc hnew
    simp only [pendingWeight, if_pos hc, searchWeight] at met ⊢
    omega
  · have met := unmet_antitone SourceClass.qualified searchWeight entered c.qualified index.classes
    simp only [pendingWeight, if_neg hc, searchWeight] at met ⊢
    omega

/-- What `find` answers first for the classes in `pending` and their bases; the names in `entered` are
passed over. -/
def searchFrom {α : Type} (index : SourceIndex) (policy : MatchPolicy)
    (find : SourceClass → Option α) (entered : List String) :
    List SourceClass → Option α
  | [] => none
  | c :: rest =>
    if c.qualified ∈ entered then searchFrom index policy find entered rest
    else
      match find c with
      | some answer => some answer
      | none =>
        searchFrom index policy find (c.qualified :: entered) (index.basesOf policy c ++ rest)
termination_by pending => index.searchMeasure entered pending
decreasing_by
  · exact index.searchMeasure_passed entered c rest
  · exact index.searchMeasure_entered policy ‹_› rest

/-- What `find` answers first for a class and the classes above it.  The class is asked before the
search starts. -/
def search? {α : Type} (index : SourceIndex) (policy : MatchPolicy)
    (find : SourceClass → Option α) (c : SourceClass) : Option α :=
  match find c with
  | some answer => some answer
  | none => searchFrom index policy find [c.qualified] (index.basesOf policy c)

/-- What `find` answers first for a class and the classes above it.  The search starts with the class
pending. -/
def searchUp? {α : Type} (index : SourceIndex) (policy : MatchPolicy)
    (find : SourceClass → Option α) (c : SourceClass) : Option α :=
  searchFrom index policy find [] [c]

end TypedStubs.SourceIndex
