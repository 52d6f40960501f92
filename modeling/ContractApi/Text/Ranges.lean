/-!
# Sets of code points as ranges

A property of code points is tabulated as closed ranges in ascending order. `inRanges` looks a number up in such a
table and stops at the first range that begins beyond it.
-/

namespace ContractApi.Text

/-- Whether a number lies in one of the closed ranges, which are in ascending order. -/
def inRanges : List (Nat × Nat) → Nat → Bool
  | [], _ => false
  | (low, high) :: rest, n => if n < low then false else if n ≤ high then true else inRanges rest n

end ContractApi.Text
