import Colloquy.Json
import Colloquy.Number.Decimal
import Colloquy.Number.Digits

/-!
# Json/Reader — reading JSON texts

`Json.parse` reads a text that holds one JSON value and nothing else: no comments, no trailing
commas, no leading zeros, no raw control characters in quotes. A text that is none is refused with a
`Json.Fault` and the place where it was found.
-/

namespace Colloquy.Json

/-- What is wrong with a JSON text. -/
inductive Fault
  | endOfList
  | endOfObject
  | endOfString
  | endOfValue
  | expectedColon
  | expectedListCommaOrEnd
  | expectedObjectCommaOrEnd
  | expectedWord
  | expectedValue
  | invalidEscape
  | invalidNumber
  | controlCharacter
  | keyMustBeString
  | trailingComma
  | trailingCharacters
deriving DecidableEq, Repr

/-- The wording of a fault. -/
def Fault.message : Fault → String
  | endOfList => "EOF while parsing a list"
  | endOfObject => "EOF while parsing an object"
  | endOfString => "EOF while parsing a string"
  | endOfValue => "EOF while parsing a value"
  | expectedColon => "expected \x60:\x60"
  | expectedListCommaOrEnd => "expected \x60,\x60 or \x60]\x60"
  | expectedObjectCommaOrEnd => "expected \x60,\x60 or \x60\x7d\x60"
  | expectedWord => "expected ident"
  | expectedValue => "expected value"
  | invalidEscape => "invalid escape"
  | invalidNumber => "invalid number"
  | controlCharacter => "control character (\\u0000-\\u001F) found while parsing a string"
  | keyMustBeString => "key must be a string"
  | trailingComma => "trailing comma"
  | trailingCharacters => "trailing characters"

/-- A fault, and the unread text whose first character it was found at. -/
structure Failure where
  fault : Fault
  rest : List Char

/-- What was read and the text after it. -/
abbrev Read (α : Type) := Except Failure (α × List Char)

/-- Refuses to read on. -/
def refuse {α : Type} (fault : Fault) (rest : List Char) : Read α := .error ⟨fault, rest⟩

/-- White space between the parts of a JSON text. -/
def isGap (c : Char) : Bool := c = ' ' || c = '\n' || c = '\t' || c = '\r'

/-- A text without the white space it starts with. -/
def skipGap (cs : List Char) : List Char := cs.dropWhile isGap

/-- Reads the rest of a word that stands for a value. -/
def readWord (j : Json) : List Char → List Char → Read Json
  | [], cs => .ok (j, cs)
  | _ :: _, [] => refuse .endOfValue []
  | w :: ws, c :: cs => if c = w then readWord j ws cs else refuse .expectedWord (c :: cs)

/-! ## Numbers -/

/-- Reads the digits after a point or an exponent mark, of which there is at least one. -/
def readPlaces (cs : List Char) : Read Unit :=
  match cs with
  | [] => refuse .endOfValue []
  | c :: _ => if c.isDigit then .ok ((), cs.dropWhile Char.isDigit) else refuse .invalidNumber cs

/-- Reads an exponent, if there is one, and tells whether there was. -/
def readExponent (cs : List Char) : Read Bool :=
  match cs with
  | c :: rest =>
    if c = 'e' ∨ c = 'E' then
      let digits :=
        match rest with
        | '+' :: ds | '-' :: ds => ds
        | ds => ds
      (readPlaces digits).map fun (_, rest) => (true, rest)
    else .ok (false, cs)
  | [] => .ok (false, [])

/-- Reads what may follow the digits before the point, and tells whether anything did. -/
def readFraction (cs : List Char) : Read Bool :=
  match cs with
  | '.' :: rest =>
    match readPlaces rest with
    | .ok (_, rest) => (readExponent rest).map fun (_, rest) => (true, rest)
    | .error e => .error e
  | _ => readExponent cs

/-- Reads the digits before the point: a zero, or digits that do not start with one. -/
def readDigits (cs : List Char) : Read (List Char) :=
  match cs with
  | [] => refuse .endOfValue []
  | '0' :: rest =>
    match rest with
    | c :: _ => if c.isDigit then refuse .invalidNumber rest else .ok (['0'], rest)
    | [] => .ok (['0'], [])
  | c :: _ =>
    if c.isDigit then .ok (cs.takeWhile Char.isDigit, cs.dropWhile Char.isDigit)
    else refuse .invalidNumber cs

/-- Reads a number. A negative zero is not a whole number. -/
def readNumber (cs : List Char) : Read Json :=
  let (negative, body) :=
    match cs with
    | '-' :: rest => (true, rest)
    | _ => (false, cs)
  match readDigits body with
  | .error e => .error e
  | .ok (digits, rest) =>
    (readFraction rest).map fun (fractional, rest) =>
      let n := natOfDigits digits
      if fractional || (negative && n == 0) then (fraction, rest)
      else (integer (if negative then -n else n), rest)

/-! ## Texts -/

/-- A character of a quoted text, or half of one. -/
inductive Unit16
  | char (c : Char)
  | half (n : Nat)

/-- The character of a 16-bit unit, or the half of one. -/
def Unit16.ofNat (n : Nat) : Unit16 :=
  if 0xd800 ≤ n ∧ n < 0xe000 then .half n else .char (Char.ofNat n)

/-- What a one-letter escape stands for. -/
def escape? (c : Char) : Option Char :=
  if c = '"' then some '"'
  else if c = '\\' then some '\\'
  else if c = '/' then some '/'
  else if c = 'b' then some '\x08'
  else if c = 'f' then some '\x0c'
  else if c = 'n' then some '\n'
  else if c = 'r' then some '\r'
  else if c = 't' then some '\t'
  else none

/-- Reads a quoted text from after the opening quote to after the closing one. -/
def readUnits : List Char → Read (List Unit16)
  | [] => refuse .endOfString []
  | '"' :: rest => .ok ([], rest)
  | '\\' :: 'u' :: a :: b :: c :: d :: rest =>
    match digits? 16 [a, b, c, d] with
    | some n => (readUnits rest).map fun (us, rest) => (Unit16.ofNat n :: us, rest)
    | none => refuse .invalidEscape (d :: rest)
  | '\\' :: c :: rest =>
    match escape? c with
    | some e => (readUnits rest).map fun (us, rest) => (.char e :: us, rest)
    | none => if c = 'u' then refuse .endOfString [] else refuse .invalidEscape (c :: rest)
  | '\\' :: [] => refuse .endOfString []
  | c :: rest =>
    if c.toNat < 0x20 then refuse .controlCharacter (c :: rest)
    else (readUnits rest).map fun (us, rest) => (.char c :: us, rest)

/-- The characters of a quoted text: two halves next to each other make one character, and a half
alone makes none. -/
def joinUnits : List Unit16 → Option (List Char)
  | [] => some []
  | .char c :: us => (joinUnits us).map (c :: ·)
  | .half a :: .half b :: us =>
    if a < 0xdc00 ∧ 0xdc00 ≤ b then
      (joinUnits us).map (Char.ofNat (0x10000 + (a - 0xd800) * 0x400 + (b - 0xdc00)) :: ·)
    else none
  | .half _ :: _ => none

/-- Reads a quoted text from after the opening quote. -/
def readText (cs : List Char) : Read (Option String) :=
  (readUnits cs).map fun (us, rest) => ((joinUnits us).map String.ofList, rest)

/-! ## Values -/

mutual

/-- Reads a value. The first argument bounds how many steps reading may take. -/
def readValue : Nat → List Char → Read Json
  | 0, cs => refuse .endOfValue cs
  | fuel + 1, cs =>
    match skipGap cs with
    | [] => refuse .endOfValue []
    | 'n' :: rest => readWord null ['u', 'l', 'l'] rest
    | 't' :: rest => readWord (bool true) ['r', 'u', 'e'] rest
    | 'f' :: rest => readWord (bool false) ['a', 'l', 's', 'e'] rest
    | '"' :: rest => (readText rest).map fun (s, rest) => (string s, rest)
    | '[' :: rest =>
      match skipGap rest with
      | ']' :: rest => .ok (array [], rest)
      | [] => refuse .endOfList []
      | _ => (readItems fuel rest).map fun (js, rest) => (array js, rest)
    | '{' :: rest =>
      match skipGap rest with
      | '}' :: rest => .ok (object [], rest)
      | [] => refuse .endOfObject []
      | _ => (readMembers fuel rest).map fun (ms, rest) => (object ms, rest)
    | c :: rest =>
      if c = '-' || c.isDigit then readNumber (c :: rest) else refuse .expectedValue (c :: rest)

/-- Reads the items of an array, of which there is at least one. -/
def readItems : Nat → List Char → Read (List Json)
  | 0, cs => refuse .endOfList cs
  | fuel + 1, cs =>
    match readValue fuel cs with
    | .error e => .error e
    | .ok (j, rest) =>
      match skipGap rest with
      | [] => refuse .endOfList []
      | ']' :: rest => .ok ([j], rest)
      | ',' :: rest =>
        match skipGap rest with
        | [] => refuse .endOfValue []
        | ']' :: rest => refuse .trailingComma (']' :: rest)
        | _ => (readItems fuel rest).map fun (js, rest) => (j :: js, rest)
      | rest => refuse .expectedListCommaOrEnd rest

/-- Reads the members of an object, of which there is at least one. -/
def readMembers : Nat → List Char → Read (List (Option String × Json))
  | 0, cs => refuse .endOfObject cs
  | fuel + 1, cs =>
    match skipGap cs with
    | '"' :: rest =>
      match readText rest with
      | .error e => .error e
      | .ok (k, rest) =>
        match skipGap rest with
        | [] => refuse .endOfObject []
        | ':' :: rest =>
          match readValue fuel rest with
          | .error e => .error e
          | .ok (j, rest) =>
            match skipGap rest with
            | [] => refuse .endOfObject []
            | '}' :: rest => .ok ([(k, j)], rest)
            | ',' :: rest =>
              match skipGap rest with
              | [] => refuse .endOfValue []
              | '}' :: rest => refuse .trailingComma ('}' :: rest)
              | _ => (readMembers fuel rest).map fun (ms, rest) => ((k, j) :: ms, rest)
            | rest => refuse .expectedObjectCommaOrEnd rest
        | rest => refuse .expectedColon rest
    | rest => refuse .keyMustBeString rest

end

/-- A place in a text: a line counted from one, and the bytes of that line up to the place. -/
structure Place where
  line : Nat
  column : Nat
deriving DecidableEq, Repr

/-- The place right after the first byte of the unread text, or at the end of the text. -/
def placeOf (text rest : List Char) : Place :=
  let read := text.take (text.length - rest.length)
  let line := 1 + read.count '\n'
  let bytes := (String.ofList (read.reverse.takeWhile (· ≠ '\n'))).utf8ByteSize
  match rest with
  | [] => ⟨line, bytes⟩
  | c :: _ => if c = '\n' then ⟨line + 1, 0⟩ else ⟨line, bytes + 1⟩

/-- Why a text does not give what was asked for: it is not JSON, or not of the right shape. -/
inductive Error
  | malformed (fault : Fault) (place : Place)
  | mismatch (text : String)
deriving DecidableEq, Repr

/-- The wording of an error. -/
def Error.message : Error → String
  | malformed fault place => fault.message ++ " at line " ++ toString place.line ++ " column " ++
      toString place.column
  | mismatch text => text

/-- Reads a text that holds one value and nothing else. -/
def parse (s : String) : Except Error Json :=
  let text := s.toList
  let located : Failure → Error := fun e => .malformed e.fault (placeOf text e.rest)
  match readValue (2 * text.length + 2) text with
  | .error e => .error (located e)
  | .ok (j, rest) =>
    match skipGap rest with
    | [] => .ok j
    | rest => .error (located ⟨.trailingCharacters, rest⟩)

end Colloquy.Json
