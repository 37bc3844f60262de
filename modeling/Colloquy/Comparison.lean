import Colloquy.Value

/-!
# Comparison — the six comparison signs

A comparison says of which orders of its two sides it holds (`Comparison.holds`).
-/

namespace Colloquy

/-- A comparison sign. -/
inductive Comparison
  | greater
  | less
  | greaterOrEqual
  | lessOrEqual
  | equal
  | notEqual
deriving DecidableEq, Repr

namespace Comparison

/-- Every comparison. -/
def all : List Comparison := [greater, less, greaterOrEqual, lessOrEqual, equal, notEqual]

theorem mem_all (c : Comparison) : c ∈ all := by cases c <;> decide

/-- The sign. -/
def symbol : Comparison → String
  | greater => ">"
  | less => "<"
  | greaterOrEqual => ">="
  | lessOrEqual => "<="
  | equal => "=="
  | notEqual => "!="

/-- The comparison of a sign. -/
def ofSymbol? (s : String) : Option Comparison := all.find? (·.symbol == s)

theorem ofSymbol?_symbol (c : Comparison) : ofSymbol? c.symbol = some c := by cases c <;> decide

/-- Whether the comparison only asks if its sides are equal. -/
def isEquality : Comparison → Bool
  | equal | notEqual => true
  | _ => false

/-- Whether the comparison holds of two sides in a given order. -/
def holds : Comparison → Ordering → Bool
  | greater, o => o == .gt
  | less, o => o == .lt
  | greaterOrEqual, o => o != .lt
  | lessOrEqual, o => o != .gt
  | equal, o => o == .eq
  | notEqual, o => o != .eq

/-- The comparison that holds of the swapped sides. -/
def swap : Comparison → Comparison
  | greater => less
  | less => greater
  | greaterOrEqual => lessOrEqual
  | lessOrEqual => greaterOrEqual
  | equal => equal
  | notEqual => notEqual

/-- The comparison that holds exactly when this one does not. -/
def complement : Comparison → Comparison
  | greater => lessOrEqual
  | less => greaterOrEqual
  | greaterOrEqual => less
  | lessOrEqual => greater
  | equal => notEqual
  | notEqual => equal

theorem holds_swap (c : Comparison) (o : Ordering) : c.swap.holds o.swap = c.holds o := by
  cases c <;> cases o <;> rfl

theorem holds_complement (c : Comparison) (o : Ordering) :
    c.complement.holds o = !c.holds o := by
  cases c <;> cases o <;> rfl

end Comparison

end Colloquy
