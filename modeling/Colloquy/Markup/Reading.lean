import Colloquy.Markup.Sentence
import Colloquy.Markup.Token
import Colloquy.Variables

/-!
# Markup/Reading — making sense of the tokens of a sentence

The tokens of a raw sentence are read from left to right. A bracket group whose keyword is in the
vocabulary becomes a `Piece`: a command, the value of a variable, the binding of one, or an issue.
Any other group is text as it stands. Between the opening and the closing of a complex tag all is
content, whatever it looks like. `Reading.ofText` reads a sentence for some variables and gives the
pieces, the variables then, and what was observed; `Reading.sentence` is the sentence they make. How
its text and tags are written down along the way is told in Proofs/Markup/Scanner.
-/

namespace Colloquy.Markup

/-- What a token of a sentence came to. -/
inductive Piece
  | letter (c : Char)
  /-- The value of a variable, which is not read again. -/
  | value (text : String)
  | command (c : Command)
  | registration (name : String) (v : Value)
  | issue (i : Issue)
deriving DecidableEq

/-- The beats of a piece. -/
def Piece.beats : Piece → List Beat
  | letter c => [.character c]
  | value text => text.toList.map .character
  | command c => [.tag c]
  | registration .. | issue _ => []

/-- The issue that a piece reports. -/
def Piece.issue? : Piece → Option Issue
  | issue i => some i
  | _ => none

theorem Piece.beats_letters (cs : List Char) :
    (cs.map letter).flatMap beats = cs.map .character := by
  rw [List.flatMap_map]
  exact List.map_eq_flatMap.symm

theorem Piece.issues_letters (cs : List Char) : (cs.map letter).filterMap issue? = [] :=
  List.filterMap_eq_nil_iff.2 fun p hp => by
    obtain ⟨c, -, rfl⟩ := List.mem_map.1 hp
    rfl

/-- What a complex tag does with its value and content. -/
inductive Closing
  | command (e : Enclosing)
  | register (kind : Kind)
deriving DecidableEq, Repr

/-- A complex tag that waits for its closing tag. -/
structure Opened where
  closing : Closing
  word : String
  value : String
  content : List Char
deriving DecidableEq, Repr

/-- Where reading stands: the complex tag it is inside of, if any, and the variables. -/
structure Standing where
  opened : Option Opened
  vars : Variables

/-- What comes of reading one token. -/
structure Step where
  pieces : List Piece
  standing : Standing
  trace : Trace

/-- The word of a closing tag, if a group's body is one: what follows a slash. -/
def closingWord? (body : List Char) : Option String :=
  match Text.trimChars body with
  | '/' :: rest => some (Text.lowerAscii (String.ofList (Text.trimChars rest)))
  | _ => none

/-- The word and the value of an opening tag: what stands before and after the first equals sign. -/
def openingParts (body : List Char) : String × Option String :=
  let body := Text.trimChars body
  let word := Text.trimChars (body.takeWhile (· ≠ '='))
  let value? :=
    match body.dropWhile (· ≠ '=') with
    | [] => none
    | _ :: value => some (String.ofList (Text.trimChars value))
  (Text.lowerAscii (String.ofList word), value?)

/-- Whether a group closes a complex tag: it names the tag's word, or none. -/
def Opened.isClosedBy (o : Opened) (body : List Char) : Bool :=
  match closingWord? body with
  | some word => word == "" || word == o.word
  | none => false

/-- Only pieces come of a token. -/
def Step.only (pieces : List Piece) (vars : Variables) : Step := ⟨pieces, ⟨none, vars⟩, []⟩

/-- An issue, with a note of it. -/
def Step.drop (i : Issue) (vars : Variables) : Step :=
  ⟨[.issue i], ⟨none, vars⟩, [.note (.warning (i.message ++ ", dropping it"))]⟩

/-- A group that is text as it stands. -/
def Step.verbatim (body : List Char) (vars : Variables) : Step :=
  .only ((Token.group body).verbatim.map .letter) vars

/-- What a complex tag comes to when it is closed. -/
def Opened.close (o : Opened) (vars : Variables) : Step :=
  let content := String.ofList o.content
  match o.closing with
  | .command e => .only [.command (e.command o.value content)] vars
  | .register kind =>
    let u := vars.registerText o.value content kind
    let piece :=
      match kind.parse? content with
      | some v => .registration o.value v
      | none => .issue (.badLiteral o.word content)
    ⟨[piece], ⟨none, u.vars⟩, u.trace⟩

/-- What a keyword that needs a value comes to. -/
def Keyword.apply (k : Keyword) (word value : String) (vars : Variables) : Step :=
  let opening (closing : Closing) : Step := ⟨[], ⟨some ⟨closing, word, value, []⟩, vars⟩, []⟩
  match k with
  | .bare b => .only [.command b.command] vars
  | .timed t =>
    match Single.ofChars? value.toList with
    | some x => .only [.command (t.command x)] vars
    | none => .drop (.badNumber word value) vars
  | .worded w => .only [.command (w.command value)] vars
  | .enclosing e => opening (.command e)
  | .register kind => opening (.register kind)
  | .retrieve kind =>
    let found := vars.retrieveAs value kind
    ⟨[.value found.value.toText], ⟨none, vars⟩, found.notes.map .note⟩

/-- Reads an opening tag. -/
def readOpening (body : List Char) (vars : Variables) : Step :=
  let (word, value?) := openingParts body
  match Keyword.ofWord? word, value? with
  | none, _ => .verbatim body vars
  | some (.bare b), _ => .only [.command b.command] vars
  | some k, some value =>
    if value = "" then .drop (.missingValue word) vars else k.apply word value vars
  | some _, none => .drop (.missingValue word) vars

/-- Reads a bracket group that is in no content. -/
def readGroup (body : List Char) (vars : Variables) : Step :=
  match closingWord? body with
  | some word =>
    if (Keyword.ofWord? word).isSome then .drop (.strayClose word) vars else .verbatim body vars
  | none => readOpening body vars

/-- Reads one token. -/
def readToken (here : Standing) (t : Token) : Step :=
  match here.opened with
  | none =>
    match t with
    | .letter c => .only [.letter c] here.vars
    | .group body => readGroup body here.vars
  | some o =>
    let more : Step :=
      ⟨[], ⟨some { o with content := o.content ++ t.verbatim }, here.vars⟩, []⟩
    match t with
    | .letter _ => more
    | .group body => if o.isClosedBy body then o.close here.vars else more

/-- What reading a sentence gives. -/
structure Reading where
  pieces : List Piece
  vars : Variables
  trace : Trace

/-- Reads tokens to the end, where a complex tag that is still open is dropped. -/
def Reading.ofTokens (here : Standing) : List Token → Reading
  | [] =>
    match here.opened with
    | none => ⟨[], here.vars, []⟩
    | some o =>
      let s := Step.drop (.unclosed o.word) here.vars
      ⟨s.pieces, s.standing.vars, s.trace⟩
  | t :: ts =>
    let s := readToken here t
    let rest := Reading.ofTokens s.standing ts
    ⟨s.pieces ++ rest.pieces, rest.vars, s.trace ++ rest.trace⟩

namespace Reading

/-- Reads a raw sentence. -/
def ofText (vars : Variables) (raw : String) : Reading :=
  ofTokens ⟨none, vars⟩ (tokens raw.toList)

/-- The sentence that was read. -/
def sentence (r : Reading) : Sentence :=
  ⟨r.pieces.flatMap Piece.beats, r.pieces.filterMap Piece.issue?⟩

end Reading

end Colloquy.Markup
