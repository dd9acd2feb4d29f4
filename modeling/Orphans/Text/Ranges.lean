/-! Sets of characters given by ranges of code points.

A table lists its ranges in ascending order; membership is a plain search, so a statement about one
character reduces to comparisons of numbers.
-/

set_option autoImplicit false

namespace Orphans.Text

/-- First and last code point of a run, both included. -/
abbrev CodeRange := Nat × Nat

def inRange (range : CodeRange) (c : Char) : Bool :=
  range.1 ≤ c.toNat && c.toNat ≤ range.2

def inRanges (ranges : List CodeRange) (c : Char) : Bool :=
  ranges.any fun range => inRange range c

theorem inRanges_eq_true_iff (ranges : List CodeRange) (c : Char) :
    inRanges ranges c = true ↔ ∃ range ∈ ranges, range.1 ≤ c.toNat ∧ c.toNat ≤ range.2 := by
  simp [inRanges, inRange]

end Orphans.Text
