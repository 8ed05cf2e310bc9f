/-!
Sets of characters, given as a list of closed ranges of code points.
-/

set_option autoImplicit false

namespace DBusMarshal.Text

/-- The characters whose code points lie between two bounds, both included. -/
structure CharRange where
  low : Nat
  high : Nat
deriving DecidableEq, Repr

/-- A character belongs to a range when its code point lies between the bounds. -/
def CharRange.contains (range : CharRange) (c : Char) : Bool :=
  range.low ≤ c.toNat && c.toNat ≤ range.high

/-- A character belongs to a list of ranges when one of them contains it. -/
def inRanges (ranges : List CharRange) (c : Char) : Bool :=
  ranges.any fun range => range.contains c

theorem inRanges_eq_true_iff (ranges : List CharRange) (c : Char) :
    inRanges ranges c = true ↔
      ∃ range ∈ ranges, range.low ≤ c.toNat ∧ c.toNat ≤ range.high := by
  simp [inRanges, CharRange.contains]

end DBusMarshal.Text
