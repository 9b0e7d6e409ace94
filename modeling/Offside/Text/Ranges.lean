/-!
# Ranges of characters

A class of characters is given by its code points, as inclusive ranges in increasing order.
-/

namespace Offside.Text

/-- Whether a character lies in one of the ranges. -/
def inRanges (ranges : List (Nat × Nat)) (c : Char) : Bool :=
  ranges.any fun range => range.1 ≤ c.toNat && c.toNat ≤ range.2

end Offside.Text
