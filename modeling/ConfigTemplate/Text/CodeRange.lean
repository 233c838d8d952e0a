/-!
# Sets of characters as ranges of code points
-/

namespace ConfigTemplate.Text

/-- Whether a character lies in one of the ranges. The ranges are given by their first and last code
points, in increasing order and apart from each other. -/
def inRanges (c : Char) : List (Nat × Nat) → Bool
  | [] => false
  | (first, last) :: rest =>
    if c.toNat < first then false
    else c.toNat ≤ last || inRanges c rest

end ConfigTemplate.Text
