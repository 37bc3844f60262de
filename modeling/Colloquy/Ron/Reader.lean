import Colloquy.Ron.Token

/-!
# Ron/Reader — reading RON texts

RON is the notation of settings files: records `(name: value, …)` with or without the name of their
type in front, tuples, lists, maps, options, texts plain and raw, characters, numbers, and words.
`Ron.parse?` reads a text that holds one value and nothing else. Values may stand only so deep
inside one another (`Ron.depthLimit`), and a header may let an option go without parentheses.
-/

namespace Colloquy

/-- A RON value. Numbers are kept as they are written. -/
inductive Ron
  | bool (b : Bool)
  | number (text : List Char)
  | word (name : String)
  | char (c : Char)
  | string (s : String)
  | option (value : Option Ron)
  | list (items : List Ron)
  | map (entries : List (Ron × Ron))
  | tuple (name : Option String) (items : List Ron)
  | record (name : Option String) (fields : List (String × Ron))

namespace Ron

/-! ## Values -/

/-- How many levels deep a value may stand. Brackets are one level, but for `()`, and each item,
name or value between them is another; the value of an option is one level deeper than it. -/
def depthLimit : Nat := 128

/-- Goes one level deeper, if there is room for it. -/
def deeper {α : Type} (room : Nat) (reader : Nat → Option α) : Option α :=
  match room with
  | 0 => none
  | room + 1 => reader room

/-- The words that are values. Written after `r#` they are names like any other. -/
def keywords : List (String × Ron) :=
  [("true", bool true), ("false", bool false), ("None", option none),
    ("inf", number "inf".toList), ("NaN", number "NaN".toList)]

/-- Reads a word that is a value. -/
def readKeyword (cs : List Char) : Read Ron :=
  keywords.findSome? fun (keyword, r) => (afterKeyword? keyword cs).map (r, ·)

/-- Reads a value that holds no other. -/
def readPlain (cs : List Char) : Read Ron :=
  match cs with
  | '"' :: rest => (readQuoted '"' none rest).map fun (text, rest) => (string (.ofList text), rest)
  | '\'' :: rest =>
    match readQuoted '\'' none rest with
    | some ([c], rest) => some (char c, rest)
    | _ => none
  | c :: _ =>
    if isNumberStart c then (readNumber cs).map fun (text, rest) => (number text, rest) else none
  | [] => none

/-- Whether a record or a tuple holds named fields: its first word is followed by a colon. -/
def startsField (cs : List Char) : Bool :=
  match readWord cs with
  | some (_, rest) => (skip rest).any fun rest => rest.head? == some ':'
  | none => false

/-- What follows a colon. -/
def afterColon? (cs : List Char) : Option (List Char) :=
  match skip cs with
  | some (':' :: rest) => skip rest
  | _ => none

/-- What follows a closing bracket, before which a comma may stand. -/
def afterClose? (close : Char) (cs : List Char) : Option (List Char) :=
  match skip cs with
  | some (',' :: rest) =>
    match skip rest with
    | some (c :: rest) => if c = close then some rest else none
    | _ => none
  | some (c :: rest) => if c = close then some rest else none
  | _ => none

mutual

/-- Reads a value. The arguments say whether options may go without parentheses, and bound the steps
taken and how much deeper values may stand. -/
def readValue (bareOptions : Bool) : Nat → Nat → List Char → Read Ron
  | 0, _, _ => none
  | fuel + 1, room, cs =>
    match readKeyword cs, afterKeyword? "Some" cs, rawStart? cs with
    | some r, _, _ => some r
    | none, some rest, _ => readOption bareOptions fuel room rest
    | none, none, some (hashes, inner) =>
      (readRaw hashes inner).map fun (raw, rest) => (string (.ofList raw), rest)
    | none, none, none =>
      match cs with
      | '[' :: rest =>
        deeper room fun room =>
          (readItems bareOptions fuel room ']' rest).map fun (items, rest) => (list items, rest)
      | '{' :: rest =>
        deeper room fun room =>
          (readEntries bareOptions fuel room rest).map fun (entries, rest) => (map entries, rest)
      | '(' :: ')' :: rest => some (record none [], rest)
      | '(' :: rest => readParens bareOptions fuel room none rest
      | cs =>
        match readWord cs with
        | none => readPlain cs
        | some (name, rest) =>
          match skip rest with
          | some ('(' :: rest) => readParens bareOptions fuel room (some name) rest
          | some rest => some (word name, rest)
          | none => none

/-- Reads what follows the word for an option that holds a value. -/
def readOption (bareOptions : Bool) : Nat → Nat → List Char → Read Ron
  | 0, _, _ => none
  | fuel + 1, room, cs =>
    match skip cs with
    | none => none
    | some ('(' :: rest) =>
      match skip rest with
      | none => none
      | some cs =>
        match deeper room fun room => readValue bareOptions fuel room cs with
        | none => none
        | some (r, rest) => (afterClose? ')' rest).map (option (some r), ·)
    | some cs =>
      if bareOptions then
        deeper room fun room =>
          (readValue bareOptions fuel room cs).map fun (r, rest) => (option (some r), rest)
      else none

/-- Reads what stands between parentheses: the fields of a record, or the items of a tuple. -/
def readParens (bareOptions : Bool) : Nat → Nat → Option String → List Char → Read Ron
  | 0, _, _, _ => none
  | fuel + 1, room, name, cs =>
    deeper room fun room =>
      match skip cs with
      | none => none
      | some (')' :: rest) => some (record name [], rest)
      | some cs =>
        if startsField cs then
          (readFields bareOptions fuel room cs).map fun (fields, rest) => (record name fields, rest)
        else
          (readItems bareOptions fuel room ')' cs).map fun (items, rest) => (tuple name items, rest)

/-- Reads items up to a closing bracket. -/
def readItems (bareOptions : Bool) : Nat → Nat → Char → List Char → Read (List Ron)
  | 0, _, _, _ => none
  | fuel + 1, room, close, cs =>
    match skip cs with
    | none => none
    | some [] => none
    | some (c :: rest) =>
      if c = close then some ([], rest)
      else
        match deeper room fun room => readValue bareOptions fuel room (c :: rest) with
        | none => none
        | some (r, rest) =>
          match skip rest with
          | some (',' :: rest) =>
            (readItems bareOptions fuel room close rest).map fun (items, rest) => (r :: items, rest)
          | some (c :: rest) => if c = close then some ([r], rest) else none
          | _ => none

/-- Reads the fields of a record up to its closing parenthesis. -/
def readFields (bareOptions : Bool) : Nat → Nat → List Char → Read (List (String × Ron))
  | 0, _, _ => none
  | fuel + 1, room, cs =>
    match skip cs with
    | none => none
    | some (')' :: rest) => some ([], rest)
    | some cs =>
      match readWord cs with
      | none => none
      | some (name, rest) =>
        match afterColon? rest with
        | none => none
        | some cs =>
          match deeper room fun room => readValue bareOptions fuel room cs with
          | none => none
          | some (r, rest) =>
            match skip rest with
            | some (',' :: rest) =>
              (readFields bareOptions fuel room rest).map fun (fields, rest) =>
                ((name, r) :: fields, rest)
            | some (')' :: rest) => some ([(name, r)], rest)
            | _ => none

/-- Reads the entries of a map up to its closing brace. -/
def readEntries (bareOptions : Bool) : Nat → Nat → List Char → Read (List (Ron × Ron))
  | 0, _, _ => none
  | fuel + 1, room, cs =>
    match skip cs with
    | none => none
    | some ('}' :: rest) => some ([], rest)
    | some cs =>
      match deeper room fun room => readValue bareOptions fuel room cs with
      | none => none
      | some (k, rest) =>
        match afterColon? rest with
        | none => none
        | some cs =>
          match deeper room fun room => readValue bareOptions fuel room cs with
          | none => none
          | some (r, rest) =>
            match skip rest with
            | some (',' :: rest) =>
              (readEntries bareOptions fuel room rest).map fun (entries, rest) =>
                ((k, r) :: entries, rest)
            | some ('}' :: rest) => some ([(k, r)], rest)
            | _ => none

end

/-! ## Texts that hold one value -/

/-- Reads some marks that may have blanks between them. -/
def readMarks : List String → List Char → Option (List Char)
  | [], cs => some cs
  | mark :: marks, cs =>
    match skip cs with
    | none => none
    | some cs =>
      if mark.toList.isPrefixOf cs then readMarks marks (cs.drop mark.toList.length) else none

/-- The extension that lets an option go without parentheses. -/
def bareOptionsExtension : String := "implicit_some"

/-- The extensions that a header may enable. Only `bareOptionsExtension` changes what is read: the
others are about types with a single value inside, and settings have none. -/
def extensions : List String := ["unwrap_newtypes", bareOptionsExtension, "unwrap_variant_newtypes"]

/-- Reads the extensions that a header names, up to its closing brackets. -/
def readExtensions : Nat → List Char → Read (List String)
  | 0, _ => none
  | fuel + 1, cs =>
    match (skip cs).bind readWord with
    | none => none
    | some (name, rest) =>
      if name ∉ extensions then none
      else
        match skip rest with
        | none => none
        | some (',' :: rest) =>
          match skip rest with
          | none => none
          | some (')' :: rest) => (readMarks ["]"] rest).map ([name], ·)
          | some rest => (readExtensions fuel rest).map fun (names, rest) => (name :: names, rest)
        | some rest => (readMarks [")", "]"] rest).map ([name], ·)

/-- Reads headers, of which there may be any number, for the extensions that they enable. -/
def readHeaders : Nat → List Char → Read (List String)
  | 0, _ => none
  | fuel + 1, cs =>
    match skip cs with
    | none => none
    | some ('#' :: rest) =>
      match readMarks ["!", "[", "enable", "("] rest with
      | none => none
      | some rest =>
        match readExtensions rest.length rest with
        | none => none
        | some (names, rest) =>
          (readHeaders fuel rest).map fun (more, rest) => (names ++ more, rest)
    | some cs => some ([], cs)

/-- Reads a text that holds one value and nothing else. -/
def parse? (s : String) : Option Ron :=
  let text := s.toList
  match readHeaders (text.length + 1) text with
  | none => none
  | some (names, cs) =>
    match readValue (names.contains bareOptionsExtension) (3 * text.length + 3) depthLimit cs with
    | none => none
    | some (r, rest) => if skip rest = some [] then some r else none

end Ron

end Colloquy
