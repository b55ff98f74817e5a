/-!
Character classes given by tables: a class is a list of ranges of code points in ascending order.
-/

namespace LoopCalc.Text

/-- `n` lies in one of the ranges. The ranges are ascending, so the search stops at the first one
that starts past `n`. -/
def inRanges : List (Nat × Nat) → Nat → Bool
  | [], _ => false
  | (low, high) :: rest, n => if n < low then false else n ≤ high || inRanges rest n

end LoopCalc.Text
