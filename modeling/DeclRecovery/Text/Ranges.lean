/-!
Properties of characters, given as closed ranges of code points in ascending order.
-/

namespace DeclRecovery.Text

/-- Whether the code point of `c` lies in one of the ranges. -/
def inRanges (ranges : List (Nat × Nat)) (c : Char) : Bool :=
  ranges.any fun r => r.1 ≤ c.toNat && c.toNat ≤ r.2

end DeclRecovery.Text
