/-!
# Number/Digits — numbers written in a base of at most sixteen

The letters `a` to `f`, of either case, go on from the digits `0` to `9`.
-/

namespace Colloquy

/-- The number that a digit stands for, if it is one of the base. -/
def digit? (base : Nat) (c : Char) : Option Nat :=
  let value? : Option Nat :=
    if c.isDigit then some (c.toNat - 48)
    else if 'a' ≤ c ∧ c ≤ 'f' then some (c.toNat - 87)
    else if 'A' ≤ c ∧ c ≤ 'F' then some (c.toNat - 55)
    else none
  value?.filter fun n => decide (n < base)

theorem digit?_lt {base d : Nat} {c : Char} (h : digit? base c = some d) : d < base := by
  simpa using (Option.filter_eq_some_iff.1 h).2

/-- The number that digits write, going on from the number that earlier ones write. -/
def digitsFrom? (base : Nat) : Nat → List Char → Option Nat
  | n, [] => some n
  | n, c :: cs =>
    match digit? base c with
    | some d => digitsFrom? base (n * base + d) cs
    | none => none

/-- The number that digits write. -/
def digits? (base : Nat) (cs : List Char) : Option Nat := digitsFrom? base 0 cs

end Colloquy
