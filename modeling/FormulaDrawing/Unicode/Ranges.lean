/-!
# Sets of code points

A set of code points is a list of closed ranges in ascending order. Membership stops at the first
range that starts above the code point.
-/

namespace FormulaDrawing.Unicode

/-- Whether a code point lies in one of the ascending ranges. -/
def inRanges : List (Nat × Nat) → Nat → Bool
  | [], _ => false
  | (low, high) :: rest, n => if n < low then false else n ≤ high || inRanges rest n

end FormulaDrawing.Unicode
