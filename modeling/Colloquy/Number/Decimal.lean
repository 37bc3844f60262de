import Colloquy.Number.Single
import Colloquy.Text.Case

/-!
# Number/Decimal — decimal numbers as they are written

`Decimal.ofChars?` reads an optional sign, digits with at most one point among them, and an optional
exponent; at least one digit stands before the exponent. `Single.ofChars?` also reads the words for
the infinities and for no number, in any case. A decimal is kept exactly and rounded once, except
in `Decimal.toSingleByDouble`, for decimals that pass through the 64-bit format on their way.
-/

namespace Colloquy

/-- A signed decimal, `digits * 10 ^ exponent`. -/
structure Decimal where
  negative : Bool
  digits : Nat
  exponent : Int
deriving DecidableEq, Repr

/-- The powers of ten. -/
def tenTo (n : Nat) : Nat := Nat.pow 10 n

/-- The number that a run of decimal digits writes. -/
def natOfDigits (cs : List Char) : Nat :=
  cs.foldl (fun n c => n * 10 + (c.toNat - '0'.toNat)) 0

/-- An optional sign and what follows it; a text without one is not negative. -/
def splitSign : List Char → Bool × List Char
  | '-' :: cs => (true, cs)
  | '+' :: cs => (false, cs)
  | cs => (false, cs)

namespace Decimal

/-- The exponent part of a decimal: nothing, or `e`, an optional sign and at least one digit. -/
def exponentOfChars? : List Char → Option Int
  | [] => some 0
  | c :: cs =>
    let (negative, digits) := splitSign cs
    if (c = 'e' ∨ c = 'E') ∧ digits ≠ [] ∧ digits.all Char.isDigit then
      some (if negative then -natOfDigits digits else natOfDigits digits)
    else none

/-- An unsigned decimal. -/
def magnitudeOfChars? (negative : Bool) (cs : List Char) : Option Decimal :=
  let whole := cs.takeWhile Char.isDigit
  let rest := cs.dropWhile Char.isDigit
  let (places, rest) :=
    match rest with
    | '.' :: cs => (cs.takeWhile Char.isDigit, cs.dropWhile Char.isDigit)
    | _ => ([], rest)
  if whole = [] ∧ places = [] then none
  else
    (exponentOfChars? rest).map fun e =>
      ⟨negative, natOfDigits (whole ++ places), e - places.length⟩

/-- The decimal that a text writes. -/
def ofChars? (cs : List Char) : Option Decimal :=
  let (negative, cs) := splitSign cs
  magnitudeOfChars? negative cs

/-- How many decimal digits a number has; zero has none. -/
def width (n : Nat) : Nat :=
  if n = 0 then 0 else (Nat.toDigits 10 n).length

/-- Decimals with their first digit further than this from the point are beyond every format. -/
def reach : Int := 400

/-- The decimal as a fraction, or whether it is beyond reach and then large or small. -/
inductive Size
  | within (num den : Nat)
  | tiny
  | huge

/-- The decimal's magnitude. -/
def size (d : Decimal) : Size :=
  if d.digits = 0 then .tiny
  else if d.exponent + width d.digits > reach then .huge
  else if d.exponent + width d.digits < -reach then .tiny
  else .within (d.digits * tenTo d.exponent.toNat) (tenTo (-d.exponent).toNat)

/-- The nearest single. -/
def toSingle (d : Decimal) : Single :=
  match d.size with
  | .within num den => Single.ofRatio d.negative num den
  | .tiny => Single.zero d.negative
  | .huge => .infinite d.negative

/-- The single nearest to the nearest double. -/
def toSingleByDouble (d : Decimal) : Single :=
  match d.size with
  | .within num den =>
    let units := roundBits Format.double.precision (num <<< Format.double.scale) den
    Single.ofRatio d.negative units (1 <<< Format.double.scale)
  | .tiny => Single.zero d.negative
  | .huge => .infinite d.negative

end Decimal

/-- The single that a text writes: a decimal, or one of the words `inf`, `infinity` and `nan`. -/
def Single.ofChars? (cs : List Char) : Option Single :=
  let (negative, rest) := splitSign cs
  match Decimal.magnitudeOfChars? negative rest with
  | some d => some d.toSingle
  | none =>
    let word := String.ofList (rest.map Char.toLower)
    if word = "inf" ∨ word = "infinity" then some (.infinite negative)
    else if word = "nan" then some .nan
    else none

end Colloquy
