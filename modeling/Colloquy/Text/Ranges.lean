/-!
# Text/Ranges — classes of characters as ranges of code points

A Unicode property is a table of ranges. `CodeRanges.covers` says whether a character has it.
-/

namespace Colloquy.Text

/-- Ranges of code points, ends included. -/
abbrev CodeRanges := List (Nat × Nat)

/-- Whether a character lies in one of the ranges. -/
def CodeRanges.covers (ranges : CodeRanges) (c : Char) : Bool :=
  ranges.any fun r => r.1 ≤ c.toNat && c.toNat ≤ r.2

end Colloquy.Text
