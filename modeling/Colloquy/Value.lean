import Colloquy.Number.Shortest
import Colloquy.Number.Whole
import Colloquy.Text.Blank

/-!
# Value — typed values and the kinds a script may declare

A script declares a value by the name of its kind and a text. `Kind.ofName` finds a kind by name,
`Kind.parse` reads a text as a value of a kind, and `Value.toText` writes it back. `Value.compare`
orders two values: whole numbers of any width exactly, whole numbers against decimals as the nearest
64-bit floating-point numbers, and truth values and texts against their own kind only.
-/

namespace Colloquy

/-- The kinds of value that a script may declare. -/
inductive Kind
  | short
  | int
  | long
  | float
  | bool
  | string
deriving DecidableEq, Repr

namespace Kind

/-- The name of a kind in scripts. -/
def name : Kind → String
  | short => "short"
  | int => "int"
  | long => "long"
  | float => "float"
  | bool => "bool"
  | string => "string"

/-- Every kind. -/
def all : List Kind := [short, int, long, float, bool, string]

theorem mem_all (k : Kind) : k ∈ all := by cases k <;> decide

/-- Truth values and texts are only ever equal or different, never more or less. -/
def equalityOnly : Kind → Bool
  | bool | string => true
  | _ => false

end Kind

/-- Why a declared value cannot be had. -/
inductive ValueError
  | unknownKind (name : String)
  | unreadable (raw : String) (kind : Kind)
deriving DecidableEq, Repr

/-- The wording of an error. -/
def ValueError.message : ValueError → String
  | unknownKind name => "unknown variable type '" ++ name ++ "'"
  | unreadable raw kind => "cannot parse '" ++ raw ++ "' as " ++ kind.name

/-- The kind of a name, which may be written in any case and with white space around it. -/
def Kind.ofName (name : String) : Except ValueError Kind :=
  match Kind.all.find? fun k => k.name == Text.lowerAscii (Text.trim name) with
  | some k => .ok k
  | none => .error (.unknownKind name)

/-- A value of one of the kinds. -/
inductive Value
  | short (n : Int16)
  | int (n : Int32)
  | long (n : Int64)
  | float (x : Single)
  | bool (b : Bool)
  | string (s : String)
deriving DecidableEq

namespace Value

/-- The kind of a value. -/
def kind : Value → Kind
  | short _ => .short
  | int _ => .int
  | long _ => .long
  | float _ => .float
  | bool _ => .bool
  | string _ => .string

/-- The text of a value. -/
def toText : Value → String
  | short n => toString n.toInt
  | int n => toString n.toInt
  | long n => toString n.toInt
  | float x => x.toText
  | bool b => if b then "true" else "false"
  | string s => s

end Value

namespace Kind

/-- The value that stands in for a missing one. -/
def zero : Kind → Value
  | short => .short 0
  | int => .int 0
  | long => .long 0
  | float => .float 0
  | bool => .bool false
  | string => .string ""

/-- The value of this kind that a text writes. White space around it counts for texts only. -/
def parse? (kind : Kind) (raw : String) : Option Value :=
  let cs := Text.trimChars raw.toList
  match kind with
  | short => (readWithin? Int16.minValue.toInt Int16.maxValue.toInt cs).map fun n =>
      .short (Int16.ofInt n)
  | int => (readWithin? Int32.minValue.toInt Int32.maxValue.toInt cs).map fun n =>
      .int (Int32.ofInt n)
  | long => (readWithin? Int64.minValue.toInt Int64.maxValue.toInt cs).map fun n =>
      .long (Int64.ofInt n)
  | float => (Single.ofChars? cs).map .float
  | bool =>
    if cs.map Char.toLower = "true".toList then some (.bool true)
    else if cs.map Char.toLower = "false".toList then some (.bool false)
    else none
  | string => some (.string raw)

/-- The value of this kind that a text writes, or why there is none. -/
def parse (kind : Kind) (raw : String) : Except ValueError Value :=
  match kind.parse? raw with
  | some v => .ok v
  | none => .error (.unreadable raw kind)

theorem kind_zero (k : Kind) : k.zero.kind = k := by cases k <;> rfl

/-- A text read as a kind gives a value of that kind. -/
theorem kind_of_parse? {k : Kind} {raw : String} {v : Value} (h : k.parse? raw = some v) :
    v.kind = k := by
  cases k <;> simp only [parse?, Option.map_eq_some_iff] at h
  case bool =>
    split at h
    · cases h; rfl
    · split at h <;> cases h; rfl
  case string => cases h; rfl
  all_goals obtain ⟨_, _, rfl⟩ := h; rfl

theorem parse_eq_ok_iff {k : Kind} {raw : String} {v : Value} :
    k.parse raw = .ok v ↔ k.parse? raw = some v := by
  cases h : k.parse? raw <;> simp [parse, h]

theorem parse_eq_error_iff {k : Kind} {raw : String} {e : ValueError} :
    k.parse raw = .error e ↔ k.parse? raw = none ∧ e = .unreadable raw k := by
  cases h : k.parse? raw <;> simp [parse, h, eq_comm]

end Kind

namespace Value

/-! ## Order -/

/-- The number that a value of a whole kind holds. -/
def integer? : Value → Option Int
  | short n => some n.toInt
  | int n => some n.toInt
  | long n => some n.toInt
  | _ => none

/-- A whole number as the nearest 64-bit floating-point number, counted in the units of a single. -/
def doubleRank (n : Int) : Int :=
  n.sign * (roundBits Format.double.precision n.natAbs 1 <<< Format.single.scale : Nat)

/-- Where a number stands among all numbers, if the value is one. -/
def rank? (v : Value) : Option Int :=
  match v with
  | float x => x.rank?
  | v => v.integer?.map doubleRank

/-- The order of two values, if they can be compared. -/
def compare : Value → Value → Option Ordering
  | bool a, bool b => some (Ord.compare a b)
  | string a, string b => some (Ord.compare a b)
  | a, b =>
    match a.integer?, b.integer? with
    | some x, some y => some (Ord.compare x y)
    | _, _ =>
      match a.rank?, b.rank? with
      | some x, some y => some (Ord.compare x y)
      | _, _ => none

/-- Whether two values are of one kind and equal. Decimals are equal as numbers: the two zeros are,
and what is no number equals nothing. -/
def same : Value → Value → Bool
  | float x, float y => x.rank?.isSome && x.rank? == y.rank?
  | a, b => decide (a = b)

end Value

end Colloquy
