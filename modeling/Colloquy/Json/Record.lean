import Colloquy.Json.Reader

/-!
# Json/Record — records in JSON

A record is an object with a member for each of its fields, in any order and among members that mean
nothing, or an array of its fields in their order, as many of them as are given. `Json.record` finds
the fields; `Fields.read` reads one of them, and `Fields.require` one that has to be there.
-/

namespace Colloquy.Json

/-- The value of a JSON type of another kind than the one that was asked for. -/
def unexpected {α : Type} (wanted : String) : Except Error α :=
  .error (.mismatch ("invalid type: expected " ++ wanted))

/-- The fields that a record gives, by name. -/
abbrev Fields := List (String × Json)

/-- The members of an object that a record knows. Each may be given once, and the names of all must
be texts. -/
def knownMembers (names : List String) : List (Option String × Json) → Except Error Fields
  | [] => .ok []
  | (none, _) :: _ => .error (.mismatch "lone leading surrogate in hex escape")
  | (some k, j) :: ms =>
    match knownMembers names ms with
    | .error e => .error e
    | .ok fields =>
      if k ∈ names then
        if (fields.lookup k).isSome then
          .error (.mismatch ("duplicate field \x60" ++ k ++ "\x60"))
        else .ok ((k, j) :: fields)
      else .ok fields

/-- The fields of a record that has these, in this order. -/
def record (names : List String) : Json → Except Error Fields
  | object ms => knownMembers names ms
  | array js =>
    if js.length ≤ names.length then .ok (names.zip js)
    else .error (.mismatch "trailing characters")
  | _ => unexpected "a record"

/-- Reads a field, or takes its default. -/
def Fields.read {α : Type} (fields : Fields) (name : String) (default : α)
    (reader : Json → Except Error α) : Except Error α :=
  match fields.lookup name with
  | some j => reader j
  | none => .ok default

/-- Reads a field that has no default. -/
def Fields.require {α : Type} (fields : Fields) (name : String)
    (reader : Json → Except Error α) : Except Error α :=
  match fields.lookup name with
  | some j => reader j
  | none => .error (.mismatch ("missing field \x60" ++ name ++ "\x60"))

/-- A text. -/
def asText : Json → Except Error String
  | string (some s) => .ok s
  | string none => .error (.mismatch "lone leading surrogate in hex escape")
  | _ => unexpected "a string"

/-- A text, or null for none. -/
def asText? : Json → Except Error (Option String)
  | null => .ok none
  | j => (asText j).map some

/-- A truth value. -/
def asBool : Json → Except Error Bool
  | bool b => .ok b
  | _ => unexpected "a boolean"

/-- A whole number of 32 bits. -/
def asInt32 : Json → Except Error Int32
  | integer n =>
    if Int32.minValue.toInt ≤ n ∧ n ≤ Int32.maxValue.toInt then .ok (Int32.ofInt n)
    else unexpected "a 32-bit whole number"
  | _ => unexpected "a 32-bit whole number"

/-- Reads each of some values. -/
def readAll {α : Type} (reader : Json → Except Error α) : List Json → Except Error (List α)
  | [] => .ok []
  | j :: js =>
    match reader j with
    | .error e => .error e
    | .ok a => (readAll reader js).map (a :: ·)

/-- A list. -/
def asList {α : Type} (reader : Json → Except Error α) : Json → Except Error (List α)
  | array js => readAll reader js
  | _ => unexpected "a sequence"

/-- One of the words of a vocabulary, by itself or as the name of an object's only member, which
is null. -/
def asWord {α : Type} (vocabulary : List (String × α)) : Json → Except Error α
  | string (some s) | object [(some s, null)] =>
    match vocabulary.lookup s with
    | some a => .ok a
    | none => .error (.mismatch ("unknown variant \x60" ++ s ++ "\x60"))
  | _ => unexpected "a variant"

/-- The JSON form of an optional text. -/
def ofText? : Option String → Json
  | some s => string (some s)
  | none => null

/-- The JSON form of a text. -/
def ofText (s : String) : Json := string (some s)

end Colloquy.Json
