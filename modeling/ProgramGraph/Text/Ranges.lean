set_option autoImplicit false

/-!
# Tables of characters

A property of characters that follows no simple rule is kept as a list of ranges of code points,
both ends included, in increasing order.

## Main definitions

* `ProgramGraph.Text.inRanges` — whether a character lies in one of the ranges.
-/

namespace ProgramGraph.Text

/-- Whether the code point of a character lies in one of the ranges. -/
def inRanges (ranges : List (Nat × Nat)) (c : Char) : Bool :=
  ranges.any fun (first, last) => first ≤ c.toNat && c.toNat ≤ last

end ProgramGraph.Text
