import Colloquy.Number.Decimal
import Colloquy.Number.Digits

/-!
# Ron/Token — blanks, words, texts and numbers in RON

The parts of a RON text that hold no other values. Between them stand white space and comments,
which run to the end of a line or nest in blocks. Words are made of letters, digits and underscores,
or of a few more characters after `r#`. Texts are quoted with escapes, or raw between as many hash
marks at both ends. A number is a decimal with an optional sign, one of the words `inf` and `NaN`
after a sign, or a whole number of 64 bits in base two, eight, ten or sixteen, its digits grouped by
underscores.
-/

namespace Colloquy.Ron

/-- What was read and the text after it, unless the text is malformed. -/
abbrev Read (α : Type) := Option (α × List Char)

/-! ## Blanks -/

/-- Where a text between values stands: in nothing, in a comment to the end of the line, or in
blocks that many deep. -/
inductive Blank
  | none
  | line
  | block (depth : Nat)

/-- A text without the white space and comments it starts with. -/
def skipFrom : Blank → List Char → Option (List Char)
  | .none, '/' :: '/' :: cs => skipFrom .line cs
  | .none, '/' :: '*' :: cs => skipFrom (.block 0) cs
  | .none, '/' :: _ => Option.none
  | .none, [] => some []
  | .none, c :: cs =>
    if c = ' ' ∨ c = '\n' ∨ c = '\t' ∨ c = '\r' then skipFrom .none cs else some (c :: cs)
  | .line, [] => some []
  | .line, c :: cs => if c = '\n' then skipFrom .none cs else skipFrom .line cs
  | .block depth, '/' :: '*' :: cs => skipFrom (.block (depth + 1)) cs
  | .block 0, '*' :: '/' :: cs => skipFrom .none cs
  | .block (depth + 1), '*' :: '/' :: cs => skipFrom (.block depth) cs
  | .block depth, _ :: cs => skipFrom (.block depth) cs
  | .block _, [] => Option.none

/-- A text without the white space and comments it starts with. -/
def skip (cs : List Char) : Option (List Char) := skipFrom .none cs

/-! ## Words -/

/-- Whether a word may start so. -/
def isWordStart (c : Char) : Bool := c.isAlpha || c = '_'

/-- Whether a word may go on so. -/
def isWordPart (c : Char) : Bool := c.isAlphanum || c = '_'

/-- Whether a raw word may hold this. -/
def isRawPart (c : Char) : Bool := isWordPart c || c = '.' || c = '+' || c = '-'

/-- Reads a word: letters, digits and underscores, or any raw part after `r#`. -/
def readWord (cs : List Char) : Read String :=
  match cs with
  | 'r' :: '"' :: _ => none
  | 'r' :: '#' :: rest =>
    let name := rest.takeWhile isRawPart
    if name = [] then none else some (String.ofList name, rest.dropWhile isRawPart)
  | c :: _ =>
    let name := cs.takeWhile isWordPart
    let rest := cs.dropWhile isWordPart
    if isWordStart c && !(rest.head?.any isRawPart) then some (String.ofList name, rest) else none
  | [] => none

/-- What follows a keyword, where a text starts with it and the word does not go on. -/
def afterKeyword? (word : String) (cs : List Char) : Option (List Char) :=
  let rest := cs.drop word.toList.length
  if word.toList.isPrefixOf cs && !(rest.head?.any isWordPart) then some rest else none

/-! ## Texts -/

/-- What a one-letter escape stands for. -/
def escape? (c : Char) : Option Char :=
  if c = 'n' then some '\n'
  else if c = 'r' then some '\r'
  else if c = 't' then some '\t'
  else if c = '0' then some '\x00'
  else if c = '\\' ∨ c = '\'' ∨ c = '"' then some c
  else none

/-- The character of a code point between braces. -/
def codePoint? (digits : List Char) : Option Char :=
  if digits = [] ∨ 6 < digits.length then none
  else (digits? 16 digits).bind fun n => if n.isValidChar then some (Char.ofNat n) else none

/-- Reads a text up to its closing mark. The second argument holds the digits read of a code point
between braces, the last one first. -/
def readQuoted (close : Char) : Option (List Char) → List Char → Read (List Char)
  | none, '\\' :: 'u' :: '{' :: rest => readQuoted close (some []) rest
  | none, '\\' :: 'x' :: a :: b :: rest =>
    match digits? 16 [a, b], readQuoted close none rest with
    | some n, some (cs, rest) => some (Char.ofNat n :: cs, rest)
    | _, _ => none
  | none, '\\' :: c :: rest =>
    match escape? c, readQuoted close none rest with
    | some e, some (cs, rest) => some (e :: cs, rest)
    | _, _ => none
  | none, c :: rest =>
    if c = close then some ([], rest)
    else if c = '\\' then none
    else (readQuoted close none rest).map fun (cs, rest) => (c :: cs, rest)
  | some digits, c :: rest =>
    if c = '}' then
      match codePoint? digits.reverse, readQuoted close none rest with
      | some p, some (cs, rest) => some (p :: cs, rest)
      | _, _ => none
    else readQuoted close (some (c :: digits)) rest
  | _, [] => none

/-- Reads a raw text up to a quote and as many hash marks as it started with. -/
def readRaw (hashes : Nat) : List Char → Read (List Char)
  | [] => none
  | c :: cs =>
    if c = '"' ∧ cs.take hashes = List.replicate hashes '#' then some ([], cs.drop hashes)
    else (readRaw hashes cs).map fun (raw, rest) => (c :: raw, rest)

/-- The count of hash marks and the text after the quote, where a raw text starts. -/
def rawStart? (cs : List Char) : Option (Nat × List Char) :=
  match cs with
  | 'r' :: rest =>
    match rest.dropWhile (· = '#') with
    | '"' :: inner => some ((rest.takeWhile (· = '#')).length, inner)
    | _ => none
  | _ => none

/-! ## Numbers -/

/-- Whether a text may start a number so. -/
def isNumberStart (c : Char) : Bool := c.isDigit || c = '+' || c = '-' || c = '.'

/-- Whether a text writes a floating-point number. -/
def isFloat (cs : List Char) : Bool :=
  let magnitude := (splitSign cs).2
  (Decimal.ofChars? cs).isSome || magnitude = "inf".toList || magnitude = "NaN".toList

/-- The base of a whole number, and its digits. -/
def splitBase : List Char → Nat × List Char
  | '0' :: 'x' :: ds => (16, ds)
  | '0' :: 'o' :: ds => (8, ds)
  | '0' :: 'b' :: ds => (2, ds)
  | ds => (10, ds)

/-- The whole number that digits write, which underscores may group after the first. -/
def magnitude? (cs : List Char) : Option Nat :=
  match splitBase cs with
  | (_, []) | (_, '_' :: _) => none
  | (base, ds) => digits? base (ds.filter (· ≠ '_'))

/-- Whether a text writes a whole number of 64 bits: one with a sign if a sign is written, and one
without if none is. -/
def isWhole (cs : List Char) : Bool :=
  match cs with
  | '-' :: ds => (magnitude? ds).any fun n => decide (Int64.minValue.toInt ≤ -(n : Int))
  | '+' :: ds => (magnitude? ds).any fun n => decide ((n : Int) ≤ Int64.maxValue.toInt)
  | ds => (magnitude? ds).any fun n => decide (n ≤ 18446744073709551615)

/-- Reads the text of a number. -/
def readNumber (cs : List Char) : Read (List Char) :=
  let text := cs.takeWhile isRawPart
  if isFloat text || isWhole text then some (text, cs.dropWhile isRawPart) else none

end Colloquy.Ron
