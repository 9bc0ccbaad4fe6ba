/-!
# Ranges of code points

A character class is a list of closed ranges in increasing order.
-/

namespace GuardedData.Text

/-- One of the ranges, which are in increasing order, holds `code`. -/
def inRanges : List (Nat × Nat) → Nat → Bool
  | [], _ => false
  | (low, high) :: rest, code =>
    if code < low then false else if code ≤ high then true else inRanges rest code

end GuardedData.Text
