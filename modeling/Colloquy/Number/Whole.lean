import Colloquy.Number.Decimal

/-!
# Number/Whole — whole numbers as they are written

A whole number is an optional sign and decimal digits, with leading zeros allowed and nothing else.
`readWithin?` takes the numbers of an inclusive range, and `countOfChars?` those of a position.
-/

namespace Colloquy

/-- The number that an optional sign and digits write. -/
def wholeOfChars? (cs : List Char) : Option Int :=
  let (negative, digits) := splitSign cs
  if digits ≠ [] ∧ digits.all Char.isDigit then
    some (if negative then -natOfDigits digits else natOfDigits digits)
  else none

/-- The number that a text writes, if it is from `low` to `high`. -/
def readWithin? (low high : Int) (cs : List Char) : Option Int :=
  (wholeOfChars? cs).filter fun n => low ≤ n ∧ n ≤ high

/-- The size or position that a text writes: digits, with no sign but a plus, and a number of at
most 64 bits. -/
def countOfChars? (cs : List Char) : Option Nat :=
  match cs with
  | '-' :: _ => none
  | _ => (readWithin? 0 18446744073709551615 cs).map Int.toNat

end Colloquy
