import Colloquy.Ron.Reader

/-!
# Ron — what settings and manifests take from RON values

The readers here say of a RON value what it is as a text, a number, a list, a map or a record, or
that it is none. A record may carry its type's name, which then has to be the right one; fields that
the type does not know are ignored, and none that it knows may be given twice.
-/

namespace Colloquy.Ron

/-- The text that a value is. -/
def text? : Ron → Option String
  | string s => some s
  | _ => none

/-- The number that a value is. Whole numbers with a base or with grouped digits are none. -/
def single? : Ron → Option Single
  | number cs => Single.ofChars? cs
  | _ => none

/-- The list that a value is, each item read. -/
def list? {α : Type} (reader : Ron → Option α) : Ron → Option (List α)
  | list items => items.mapM reader
  | _ => none

/-- The map that a value is. -/
def map? : Ron → Option (List (Ron × Ron))
  | map entries => some entries
  | _ => none

/-- The fields of a record by name. -/
abbrev Fields := List (String × Ron)

/-- Reads a field, or takes its default. -/
def Fields.read {α : Type} (fields : Fields) (name : String) (default : α)
    (reader : Ron → Option α) : Option α :=
  match fields.lookup name with
  | some r => reader r
  | none => some default

/-- The fields of the record of a type that a value is. -/
def record? (type : String) (names : List String) : Ron → Option Fields
  | record name? fields =>
    let known := fields.filter fun f => f.1 ∈ names
    if (name? = none ∨ name? = some type) ∧ (known.map (·.1)).Nodup then some known else none
  | _ => none

end Colloquy.Ron
