import Colloquy.Number.Decimal

/-!
# Number/Shortest — the fewest digits that read back

A single is written with the fewest decimal digits that read back as the same number, the nearest of
those, and always in positional notation. The decimals that read back form an interval around the
number (`Single.interval`); `shortest` walks the decimal grids from the coarsest to finer ones
and stops at the first with a point in it.
-/

namespace Colloquy

/-- The decimals that round to a magnitude: from `low` to `high` half units, the ends included when
the magnitude's last digit is even. -/
structure Interval where
  low : Nat
  high : Nat
  closed : Bool

/-- The interval of a magnitude. Below a power of two the neighbours are half as far as above. -/
def Single.interval (units : Nat) : Interval :=
  let s := surplusBits Format.single.precision units
  let gap := 1 <<< s
  let below := if s ≠ 0 ∧ units = 1 <<< units.log2 then gap / 2 else gap
  ⟨2 * units - below, 2 * units + gap, units / gap % 2 = 0⟩

/-- Whether `num / den` half units lie in the interval. -/
def Interval.contains (i : Interval) (num den : Nat) : Bool :=
  if i.closed then decide (i.low * den ≤ num ∧ num ≤ i.high * den)
  else decide (i.low * den < num ∧ num < i.high * den)

/-- A point of the grid of multiples of `10 ^ place` that reads back as the magnitude, the nearer
one where both neighbours do, and the upper one at equal distance. -/
def gridPoint? (units : Nat) (place : Int) : Option Nat :=
  let step := tenTo place.toNat <<< (Format.single.scale + 1)
  let den := tenTo (-place).toNat
  let whole := 2 * units * den
  let below := whole / step
  let i := Single.interval units
  let lower := decide (0 < below) && i.contains (below * step) den
  let upper := i.contains ((below + 1) * step) den
  match lower, upper with
  | true, true =>
    if whole - below * step < (below + 1) * step - whole then some below else some (below + 1)
  | true, false => some below
  | false, true => some (below + 1)
  | false, false => none

/-- The places from the one above every single's first digit to the one below every single's last
needed digit. -/
def places : List Int :=
  (List.range 86).map fun i : Nat => 39 - (i : Int)

/-- The fewest digits that read back as a magnitude, and the place of the last of them. -/
def shortest (units : Nat) : Nat × Int :=
  (places.findSome? fun p => (gridPoint? units p).map (·, p)).getD (0, 0)

/-- `digits * 10 ^ place` in positional notation, without a point if it is a whole number. -/
def positional (digits : Nat) (place : Int) : String :=
  let text := Nat.toDigits 10 digits
  if 0 ≤ place then
    String.ofList (text ++ List.replicate place.toNat '0')
  else
    let count := (-place).toNat
    let padded := List.replicate (count + 1 - text.length) '0' ++ text
    let whole := padded.take (padded.length - count)
    String.ofList (whole ++ '.' :: padded.drop (padded.length - count))

/-- The text of a single. -/
def Single.toText : Single → String
  | .nan => "NaN"
  | .infinite negative => if negative then "-inf" else "inf"
  | .finite negative units _ =>
    let magnitude := if units = 0 then "0" else
      let (digits, place) := shortest units
      positional digits place
    if negative then "-" ++ magnitude else magnitude

instance : ToString Single := ⟨Single.toText⟩

end Colloquy
