/-!
# Sets of characters given by ranges

A character property of the Unicode standard is kept as the list of its ranges of code points, both ends included.
`inRanges` looks a character up.
-/

namespace Stepwise.Text

/-- The character lies in one of the ranges. -/
def inRanges (ranges : List (Nat × Nat)) (c : Char) : Bool :=
  ranges.any fun r => decide (r.1 ≤ c.toNat) && decide (c.toNat ≤ r.2)

/-- A character is in a set of ranges exactly when one of them holds its code point. -/
theorem inRanges_iff {ranges : List (Nat × Nat)} {c : Char} :
    inRanges ranges c = true ↔ ∃ r ∈ ranges, r.1 ≤ c.toNat ∧ c.toNat ≤ r.2 := by
  simp [inRanges]

end Stepwise.Text
