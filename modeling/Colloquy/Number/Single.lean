import Colloquy.Number.Rounding

/-!
# Number/Single — 32-bit floating-point numbers

A `Single` is a signed magnitude, an infinity, or no number at all. Each operation gives the exact
result, rounded once. `rank?` places a number on the line of integers, counted in the smallest
positive magnitude with the infinities just beyond the largest; comparing two numbers is comparing
their ranks, and what is no number has none.
-/

namespace Colloquy

/-- A 32-bit floating-point number. A finite one counts its magnitude in units of `2 ^ -149`. -/
inductive Single
  | nan
  | infinite (negative : Bool)
  | finite (negative : Bool) (units : Nat) (fits : Format.single.Fits units)
deriving DecidableEq

namespace Single

/-- The number nearest to `num / den` units, a half going to the even neighbour. -/
def nearest (negative : Bool) (num den : Nat) : Single :=
  if h : roundBits Format.single.precision num den < Format.single.limit then
    finite negative _ (Format.fits_roundBits (by decide) h)
  else
    infinite negative

/-- The number nearest to the fraction `num / den`. -/
def ofRatio (negative : Bool) (num den : Nat) : Single :=
  nearest negative (num <<< Format.single.scale) den

/-- The zero of the given sign. -/
def zero (negative : Bool) : Single :=
  finite negative 0 (by decide)

instance : Inhabited Single := ⟨zero false⟩

instance : OfNat Single 0 := ⟨zero false⟩

instance : OfNat Single 1 := ⟨ofRatio false 1 1⟩

/-! ## Order -/

/-- Where a number stands among all: its count of units, or one place past every finite number. -/
def rank? : Single → Option Int
  | nan => none
  | infinite negative => some (if negative then -Format.single.limit else Format.single.limit)
  | finite negative units _ => some (if negative then -units else units)

/-- Whether a number is above zero. -/
def isPositive (x : Single) : Bool :=
  match x.rank? with
  | some r => decide (0 < r)
  | none => false

/-- Whether a number is zero or below. Of what is no number, neither this nor `isPositive` holds. -/
def isSpent (x : Single) : Bool :=
  match x.rank? with
  | some r => decide (r ≤ 0)
  | none => false

/-- Whether a number is below zero. -/
def isNegative (x : Single) : Bool :=
  match x.rank? with
  | some r => decide (r < 0)
  | none => false

/-- Whether a number is neither infinite nor no number. -/
def isFinite : Single → Bool
  | finite .. => true
  | _ => false

/-- A number, but zero in place of anything that is not above zero. -/
def clamp (x : Single) : Single :=
  if x.isPositive then x else 0

theorem clamp_of_not_positive {x : Single} (h : x.isPositive = false) : x.clamp = 0 := by
  simp [clamp, h]

/-! ## Arithmetic -/

/-- A number with the other sign. -/
def neg : Single → Single
  | nan => nan
  | infinite negative => infinite !negative
  | finite negative units fits => finite (!negative) units fits

/-- The signed count of units of a finite number. -/
def signedUnits (negative : Bool) (units : Nat) : Int :=
  if negative then -units else units

/-- The sum of two numbers. Opposite numbers sum to the positive zero. -/
def add : Single → Single → Single
  | nan, _ => nan
  | _, nan => nan
  | infinite a, infinite b => if a = b then infinite a else nan
  | infinite a, finite .. => infinite a
  | finite .., infinite b => infinite b
  | finite a m _, finite b n _ =>
    let total := signedUnits a m + signedUnits b n
    if total = 0 then zero (a && b) else nearest (decide (total < 0)) total.natAbs 1

/-- The product of two numbers. Zero times an infinity is no number. -/
def mul : Single → Single → Single
  | nan, _ => nan
  | _, nan => nan
  | infinite a, infinite b => infinite (a != b)
  | infinite a, finite b n _ => if n = 0 then nan else infinite (a != b)
  | finite a m _, infinite b => if m = 0 then nan else infinite (a != b)
  | finite a m _, finite b n _ => nearest (a != b) (m * n) (1 <<< Format.single.scale)

instance : Add Single := ⟨add⟩

instance : Neg Single := ⟨neg⟩

instance : Sub Single := ⟨fun x y => x + -y⟩

instance : Mul Single := ⟨mul⟩

end Single

end Colloquy
