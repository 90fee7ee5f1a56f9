/-!
# Ranges of characters

A class of characters as a list of ranges of code points, both ends included.
-/

namespace SqlCompiler.Text

/-- The first and the last code point of a range. -/
abbrev Range := Nat × Nat

/-- The character lies in one of the ranges. -/
def inRanges (ranges : List Range) (c : Char) : Bool :=
  ranges.any fun r => r.1 ≤ c.toNat && c.toNat ≤ r.2

end SqlCompiler.Text
