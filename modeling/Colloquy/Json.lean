/-!
# Json — JSON values and their compact text

`Json` keeps of a value what a script can hold: whole numbers exactly, of other numbers only that
they are numbers, and of texts the characters, unless escapes in them stand for no character.
`Json.toText` is the compact text of a value, in which a text is written by `Json.quote`.
-/

namespace Colloquy

/-- A JSON value. A text with escapes that stand for no character is kept as `none`, and so is a
name of an object's member. -/
inductive Json
  | null
  | bool (b : Bool)
  | integer (n : Int)
  | fraction
  | string (s : Option String)
  | array (items : List Json)
  | object (members : List (Option String × Json))
deriving Inhabited

namespace Json

/-- The hexadecimal digit of a number below sixteen. -/
def hexDigit (n : Nat) : Char :=
  Nat.digitChar n

/-- A character inside quotes. -/
def quoteChar (c : Char) : List Char :=
  if c = '"' then ['\\', '"']
  else if c = '\\' then ['\\', '\\']
  else if c = '\n' then ['\\', 'n']
  else if c = '\r' then ['\\', 'r']
  else if c = '\t' then ['\\', 't']
  else if c = '\x08' then ['\\', 'b']
  else if c = '\x0c' then ['\\', 'f']
  else if c.toNat < 0x20 then
    ['\\', 'u', '0', '0', hexDigit (c.toNat / 16), hexDigit (c.toNat % 16)]
  else [c]

/-- A text in quotes. -/
def quote (s : String) : List Char :=
  '"' :: s.toList.flatMap quoteChar ++ ['"']

mutual

/-- The characters of a value's text. -/
def write : Json → List Char
  | null => "null".toList
  | bool b => if b then "true".toList else "false".toList
  | integer n => (toString n).toList
  | fraction => "0.0".toList
  | string s => quote (s.getD "")
  | array items => '[' :: writeItems items
  | object members => '{' :: writeMembers members

/-- The characters of the items of an array, up to its end. -/
def writeItems : List Json → List Char
  | [] => [']']
  | [j] => write j ++ [']']
  | j :: js => write j ++ ',' :: writeItems js

/-- The characters of the members of an object, up to its end. -/
def writeMembers : List (Option String × Json) → List Char
  | [] => ['}']
  | [(k, j)] => quote (k.getD "") ++ ':' :: write j ++ ['}']
  | (k, j) :: ms => quote (k.getD "") ++ ':' :: write j ++ ',' :: writeMembers ms

end

/-- The compact text of a value. -/
def toText (j : Json) : String := String.ofList j.write

end Json

end Colloquy
