/-! # Sets of characters

A class of characters is a list of inclusive ranges of code points.  Membership is decided by a
plain search, so a statement about a class is a statement about its list.
-/
namespace TypedStubs.Text

/-- A set of characters: the first and last code point of each range. -/
abbrev CharRanges := List (Nat × Nat)

/-- Whether some range holds the character. -/
def CharRanges.covers (ranges : CharRanges) (c : Char) : Bool :=
  ranges.any fun r => decide (r.1 ≤ c.toNat) && decide (c.toNat ≤ r.2)

theorem CharRanges.covers_iff (ranges : CharRanges) (c : Char) :
    ranges.covers c = true ↔ ∃ r ∈ ranges, r.1 ≤ c.toNat ∧ c.toNat ≤ r.2 := by
  simp [CharRanges.covers]

end TypedStubs.Text
