/-!
# Ranges of characters

Properties of characters outside ASCII are given by ranges of code points, both ends included.
-/

namespace Packwright.Text

/-- Whether a code point lies in one of the ranges. -/
def inRanges (ranges : List (Nat × Nat)) (n : Nat) : Bool :=
  ranges.any fun (first, last) => first ≤ n && n ≤ last

end Packwright.Text
