import Colloquy.Markup.Reading
import Colloquy.Proofs.Markup.Brackets
import Mathlib.Data.List.TakeWhile

/-!
# Proofs/Markup/Scanner — a sentence written down as it is read

Reading gives pieces, of which a sentence is made at the end. A `Scanner` writes the text, the tags
and the issues of a sentence down side by side instead (`Layout`), while it goes along the raw text
and looks ahead for the bracket that ends a group. It counts the characters it has written, and puts
each tag at that count; what comes while a complex tag is open goes to the content of the tag. The
two do the same with each token (`Scanner.read_writing`), and so with a raw sentence: what is
written down in the end is the layout of the sentence that is read (`Scanner.scanText_eq`).
-/

namespace Colloquy.Markup

/-- A sentence laid out: its text, the commands at indices into the text, and the issues. -/
structure Layout where
  text : String
  tags : List Tag
  issues : List Issue
deriving DecidableEq

/-- The layout of a sentence. -/
def Sentence.layout (s : Sentence) : Layout := ⟨s.text, s.tags, s.issues⟩

/-- The sentence with some pieces behind it. -/
def Sentence.add (s : Sentence) (ps : List Piece) : Sentence :=
  ⟨s.beats ++ ps.flatMap Piece.beats, s.issues ++ ps.filterMap Piece.issue?⟩

theorem Sentence.add_nil (s : Sentence) : s.add [] = s := by simp [add]

theorem Sentence.add_singleton (s : Sentence) (p : Piece) :
    s.add [p] = ⟨s.beats ++ p.beats, s.issues ++ p.issue?.toList⟩ := by
  rw [add, List.flatMap_singleton]
  cases p <;> rfl

theorem Sentence.add_append (s : Sentence) (ps qs : List Piece) :
    s.add (ps ++ qs) = (s.add ps).add qs := by simp [add]

/-- The value of a variable is so many letters. -/
theorem Sentence.add_value (s : Sentence) (text : String) :
    s.add [.value text] = s.add (text.toList.map .letter) := by
  rw [add_singleton, add, Piece.beats_letters, Piece.issues_letters]
  rfl

/-! ## The scanner -/

/-- What has been written down, how many characters of it are visible, the complex tag that is open,
the variables, and what was observed. -/
structure Scanner where
  out : Layout
  len : Nat
  opened : Option Opened
  vars : Variables
  trace : Trace

/-- Whether a character is none of the angle brackets. -/
def isPlain (c : Char) : Bool := c ≠ '<' && c ≠ '>'

namespace Scanner

/-- A scanner that has written nothing. -/
def start (vars : Variables) : Scanner := ⟨⟨"", [], []⟩, 0, none, vars, []⟩

/-- Writes a character to the content of the tag that is open, or to the text. -/
def pushChar (x : Scanner) (c : Char) : Scanner :=
  match x.opened with
  | some o => { x with opened := some { o with content := o.content ++ [c] } }
  | none => { x with out.text := x.out.text.push c, len := x.len + 1 }

/-- Writes several characters. -/
def pushAll (x : Scanner) (cs : List Char) : Scanner := cs.foldl pushChar x

/-- Puts a command at the end of what has been written. -/
def record (x : Scanner) (c : Command) : Scanner :=
  { x with out.tags := x.out.tags ++ [⟨x.len, c⟩] }

/-- Takes down an issue, with a note of it. -/
def issue (x : Scanner) (i : Issue) : Scanner :=
  { x with
    out.issues := x.out.issues ++ [i]
    trace := x.trace ++ [.note (.warning (i.message ++ ", dropping it"))] }

/-- Writes a group as it stands. -/
def verbatim (x : Scanner) (body : List Char) : Scanner :=
  ((x.pushChar '<').pushAll body).pushChar '>'

/-- Does what a complex tag comes to when it is closed. A literal that binds nothing is an issue of
which the variables have taken a note. -/
def close (x : Scanner) (o : Opened) : Scanner :=
  let content := String.ofList o.content
  match o.closing with
  | .command e => x.record (e.command o.value content)
  | .register kind =>
    let u := x.vars.registerText o.value content kind
    let x := { x with vars := u.vars, trace := x.trace ++ u.trace }
    match u.result with
    | .ok _ => x
    | .error _ => { x with out.issues := x.out.issues ++ [.badLiteral o.word content] }

/-- Does what a keyword with a value comes to. -/
def apply (x : Scanner) (k : Keyword) (word value : String) : Scanner :=
  match k with
  | .bare b => x.record b.command
  | .enclosing e => { x with opened := some ⟨.command e, word, value, []⟩ }
  | .register kind => { x with opened := some ⟨.register kind, word, value, []⟩ }
  | .timed t =>
    match Single.ofChars? value.toList with
    | some n => x.record (t.command n)
    | none => x.issue (.badNumber word value)
  | .worded w => x.record (w.command value)
  | .retrieve kind =>
    let found := x.vars.retrieveAs value kind
    pushAll { x with trace := x.trace ++ found.notes.map .note } found.value.toText.toList

/-- Makes sense of a group. What does not close a complex tag that is open is content. -/
def tag (x : Scanner) (body : List Char) : Scanner :=
  match closingWord? body with
  | some word =>
    match x.opened with
    | some o =>
      if word = "" ∨ word = o.word then close { x with opened := none } o else x.verbatim body
    | none =>
      if (Keyword.ofWord? word).isSome then x.issue (.strayClose word) else x.verbatim body
  | none =>
    if x.opened.isSome then x.verbatim body
    else
      let (word, value?) := openingParts body
      match Keyword.ofWord? word with
      | none => x.verbatim body
      | some (.bare b) => x.record b.command
      | some k =>
        match value?.filter (· ≠ "") with
        | none => x.issue (.missingValue word)
        | some value => x.apply k word value

/-- Goes along a text. An opening bracket begins a group if the next bracket is a closing one; all
there is from an opening bracket up to another, or up to the end, is written as it stands. -/
def scan (x : Scanner) (cs : List Char) : Scanner :=
  match cs with
  | [] => x
  | c :: cs =>
    if c ≠ '<' then (x.pushChar c).scan cs
    else
      match _hrest : cs.dropWhile isPlain with
      | [] => x.pushAll (c :: cs)
      | b :: rest =>
        if b = '<' then (x.pushAll (c :: cs.takeWhile isPlain)).scan (b :: rest)
        else (x.tag (cs.takeWhile isPlain)).scan rest
termination_by cs.length
decreasing_by
  · exact Nat.lt_succ_self _
  all_goals
    have hle := (List.dropWhile_suffix isPlain (l := cs)).length_le
    rw [_hrest] at hle
    simp only [List.length_cons] at hle ⊢
    omega

/-- A complex tag that is still open at the end is dropped. -/
def finish (x : Scanner) : Scanner :=
  match x.opened with
  | some o => issue { x with opened := none } (.unclosed o.word)
  | none => x

/-- Scans a raw sentence. -/
def scanText (vars : Variables) (raw : String) : Scanner :=
  ((start vars).scan raw.toList).finish

/-! ## Groups are found by looking ahead -/

/-- Reads one token that has been cut out. -/
def read (x : Scanner) : Token → Scanner
  | .letter c => x.pushChar c
  | .group body => x.tag body

end Scanner

theorem isPlain_iff {c : Char} : isPlain c = true ↔ c ≠ '<' ∧ c ≠ '>' := by simp [isPlain]

theorem unbracketed_takeWhile (cs : List Char) : Unbracketed (cs.takeWhile isPlain) := by
  constructor
  · intro h
    exact (isPlain_iff.1 (List.mem_takeWhile_imp h)).1 rfl
  · intro h
    exact (isPlain_iff.1 (List.mem_takeWhile_imp h)).2 rfl

/-- Where no bracket follows on an opening one, there are letters only. -/
theorem tokensFrom_unbracketed {cs : List Char} (h : Unbracketed cs) :
    ∀ read : List Char,
      tokensFrom (some read) cs = ('<' :: (read.reverse ++ cs)).map .letter := by
  induction cs with
  | nil =>
    intro read
    rw [tokensFrom, List.append_nil]
  | cons c cs ih =>
    intro read
    obtain ⟨⟨hopen, hclose⟩, hcs⟩ := unbracketed_cons.1 h
    rw [tokensFrom, if_neg hopen, if_neg hclose, ih hcs, List.reverse_cons, List.append_assoc]
    rfl

/-- What comes of an opening bracket is told by the next bracket. -/
theorem tokens_opening (cs : List Char) :
    tokens ('<' :: cs) =
      match cs.dropWhile isPlain with
      | [] => ('<' :: cs).map .letter
      | b :: rest =>
        if b = '<' then ('<' :: cs.takeWhile isPlain).map .letter ++ tokens (b :: rest)
        else .group (cs.takeWhile isPlain) :: tokens rest := by
  have hplain := unbracketed_takeWhile cs
  have hcut := List.takeWhile_append_dropWhile (p := isPlain) (l := cs)
  rw [tokens, tokensFrom, if_pos rfl]
  cases hrest : cs.dropWhile isPlain with
  | nil =>
    rw [hrest, List.append_nil] at hcut
    exact tokensFrom_unbracketed (hcut ▸ hplain) []
  | cons b rest =>
    have hb : isPlain b = false := by
      have hhead := List.head_dropWhile_not isPlain (l := cs) (by simp [hrest])
      simpa only [hrest, List.head_cons] using hhead
    rw [hrest] at hcut
    generalize cs.takeWhile isPlain = body at hplain hcut ⊢
    subst hcut
    dsimp only
    split
    · rename_i heq
      rw [heq, tokensFrom_append_opening, tokensFrom_unbracketed hplain]
      rfl
    · rename_i hne
      obtain rfl : b = '>' := by simpa [isPlain, hne] using hb
      exact tokensFrom_group hplain rest []

namespace Scanner

theorem foldl_read_letters (x : Scanner) (cs : List Char) :
    (cs.map .letter).foldl read x = x.pushAll cs := List.foldl_map

/-- **To look ahead is to cut a text into tokens.** -/
theorem scan_eq_foldl (x : Scanner) (cs : List Char) : x.scan cs = (tokens cs).foldl read x := by
  fun_induction scan x cs with
  | case1 => rfl
  | case2 x c cs hc ih =>
    have hletter : tokens (c :: cs) = .letter c :: tokens cs := if_neg hc
    rw [ih, hletter]
    rfl
  | case3 x c cs hc hrest =>
    obtain rfl : c = '<' := by simpa using hc
    rw [tokens_opening, hrest]
    exact (x.foldl_read_letters _).symm
  | case4 x c cs hc rest hrest ih =>
    obtain rfl : c = '<' := by simpa using hc
    rw [tokens_opening, hrest, ih]
    simp only [if_true, List.foldl_append, foldl_read_letters]
  | case5 x c cs hc b rest hrest hb ih =>
    obtain rfl : c = '<' := by simpa using hc
    rw [tokens_opening, hrest, ih]
    simp only [if_neg hb, List.foldl_cons]
    rfl

/-! ## A scanner writes what is read -/

/-- A scanner that has written down a sentence. -/
def writing (s : Sentence) (here : Standing) (t : Trace) : Scanner :=
  ⟨s.layout, s.size, here.opened, here.vars, t⟩

/-- The same scanner, when it has written down what came of a token as well. -/
def written (s : Sentence) (t : Trace) (next : Step) : Scanner :=
  writing (s.add next.pieces) next.standing (t ++ next.trace)

/-- A piece is written behind what there was, its tags at the count of characters there. -/
theorem writing_add (s : Sentence) (p : Piece) (here : Standing) (t : Trace) :
    writing (s.add [p]) here t =
      ⟨⟨s.text ++ String.ofList (characters p.beats), s.tags ++ tagsFrom s.size p.beats,
          s.issues ++ p.issue?.toList⟩,
        s.size + (characters p.beats).length, here.opened, here.vars, t⟩ := by
  simp [writing, Sentence.add_singleton, Sentence.layout, Sentence.text, Sentence.visible,
    Sentence.tags, Sentence.size, tagsFrom_append, String.ofList_append]

variable (s : Sentence) (o : Opened) (vars : Variables) (t : Trace)

/-- While a tag is open, characters are content. -/
theorem pushAll_opened (cs : List Char) :
    ∀ o : Opened, (writing s ⟨some o, vars⟩ t).pushAll cs =
      writing s ⟨some { o with content := o.content ++ cs }, vars⟩ t := by
  induction cs with
  | nil =>
    intro o
    rw [List.append_nil]
    rfl
  | cons c cs ih =>
    intro o
    have hrest := ih { o with content := o.content ++ [c] }
    rw [List.append_assoc] at hrest
    exact hrest

theorem pushChar_writing (c : Char) :
    (writing s ⟨none, vars⟩ t).pushChar c = writing (s.add [.letter c]) ⟨none, vars⟩ t := by
  rw [writing_add]
  simp [pushChar, writing, Sentence.layout, Piece.beats, Piece.issue?]

/-- Characters that are visible are letters behind the text. -/
theorem pushAll_writing (cs : List Char) :
    ∀ s : Sentence, (writing s ⟨none, vars⟩ t).pushAll cs =
      writing (s.add (cs.map .letter)) ⟨none, vars⟩ t := by
  induction cs with
  | nil =>
    intro s
    rw [List.map_nil, Sentence.add_nil]
    rfl
  | cons c cs ih =>
    intro s
    have hletters : (c :: cs).map Piece.letter = [.letter c] ++ cs.map .letter := rfl
    rw [hletters, Sentence.add_append, ← ih, ← pushChar_writing]
    rfl

theorem pushAll_letters (cs : List Char) :
    (writing s ⟨none, vars⟩ t).pushAll cs = written s t (.only (cs.map .letter) vars) := by
  rw [pushAll_writing, written, Step.only, List.append_nil]

theorem verbatim_eq_pushAll (x : Scanner) (body : List Char) :
    x.verbatim body = x.pushAll (Token.group body).verbatim := by
  simp [verbatim, pushAll, Token.verbatim]

theorem verbatim_writing (body : List Char) :
    (writing s ⟨none, vars⟩ t).verbatim body = written s t (.verbatim body vars) := by
  rw [verbatim_eq_pushAll, pushAll_letters]
  rfl

theorem record_writing (c : Command) :
    (writing s ⟨none, vars⟩ t).record c = written s t (.only [.command c] vars) := by
  rw [Step.only, written, writing_add]
  simp [record, writing, Sentence.layout, Piece.beats, Piece.issue?]

theorem issue_writing (i : Issue) :
    (writing s ⟨none, vars⟩ t).issue i = written s t (.drop i vars) := by
  rw [Step.drop, written, writing_add]
  simp [issue, writing, Sentence.layout, Piece.beats, Piece.issue?]

theorem apply_writing (k : Keyword) (word value : String) :
    (writing s ⟨none, vars⟩ t).apply k word value = written s t (k.apply word value vars) := by
  cases k with
  | bare b => exact record_writing ..
  | worded w => exact record_writing ..
  | timed _ =>
    simp only [apply, Keyword.apply]
    cases Single.ofChars? value.toList with
    | none => exact issue_writing ..
    | some n => exact record_writing ..
  | enclosing e => simp [apply, Keyword.apply, written, writing, Sentence.add_nil]
  | register kind => simp [apply, Keyword.apply, written, writing, Sentence.add_nil]
  | retrieve kind =>
    rw [Keyword.apply, written, Sentence.add_value]
    exact pushAll_writing vars _ _ s

theorem close_writing :
    (writing s ⟨none, vars⟩ t).close o = written s t (o.close vars) := by
  unfold close Opened.close
  cases o.closing with
  | command e => exact record_writing ..
  | register kind =>
    simp only [writing, Variables.registerText, Kind.parse]
    cases kind.parse? (String.ofList o.content) with
    | some v =>
      rw [written, writing_add]
      simp [Sentence.layout, Piece.beats, Piece.issue?]
    | none =>
      rw [written, writing_add]
      simp [Sentence.layout, Piece.beats, Piece.issue?]

/-- In no content, a group comes to what is read of it. -/
theorem tag_writing (body : List Char) :
    (writing s ⟨none, vars⟩ t).tag body = written s t (readGroup body vars) := by
  unfold tag readGroup
  cases closingWord? body with
  | some word =>
    dsimp only [writing]
    split
    · exact issue_writing ..
    · exact verbatim_writing ..
  | none =>
    unfold readOpening
    obtain ⟨word, value?⟩ := openingParts body
    simp only [writing, Option.isSome_none, Bool.false_eq_true, if_false]
    cases hk : Keyword.ofWord? word with
    | none => exact verbatim_writing ..
    | some k =>
      cases k with
      | bare b => exact record_writing ..
      -- any other keyword takes no notice of an empty value
      | _ =>
        rcases value? with _ | value
        · exact issue_writing ..
        · by_cases hvalue : value = ""
          · simp only [hvalue, Option.filter_some, ne_eq, not_true, decide_false, if_true]
            exact issue_writing ..
          · simp only [hvalue, Option.filter_some, ne_eq, not_false_eq_true, decide_true, if_true,
              if_false]
            exact apply_writing ..

/-- Inside of a complex tag, a group closes the tag or is content. -/
theorem tag_opened (body : List Char) :
    (writing s ⟨some o, vars⟩ t).tag body =
      if o.isClosedBy body then (writing s ⟨none, vars⟩ t).close o
      else (writing s ⟨some o, vars⟩ t).pushAll (Token.group body).verbatim := by
  unfold tag Opened.isClosedBy
  rw [verbatim_eq_pushAll]
  cases closingWord? body with
  | none => simp [writing]
  | some word => simp [writing]

/-- **A token comes to the same for scanner and reading.** -/
theorem read_writing (here : Standing) (token : Token) :
    (writing s here t).read token = written s t (readToken here token) := by
  obtain ⟨opened, vars⟩ := here
  cases opened with
  | none =>
    cases token with
    | letter c => exact pushAll_letters s vars t [c]
    | group body => exact tag_writing s vars t body
  | some o =>
    have hmore : (writing s ⟨some o, vars⟩ t).pushAll token.verbatim =
        written s t ⟨[], ⟨some { o with content := o.content ++ token.verbatim }, vars⟩, []⟩ := by
      rw [pushAll_opened, written, Sentence.add_nil, List.append_nil]
    cases token with
    | letter c => exact hmore
    | group body =>
      rw [read, tag_opened, hmore, readToken]
      dsimp only
      split
      · exact close_writing s o vars t
      · rfl

/-- By induction on the tokens; what was written before goes on to be there. -/
theorem finish_foldl_read (ts : List Token) :
    ∀ (s : Sentence) (here : Standing) (t : Trace),
      (ts.foldl read (writing s here t)).finish =
        let r := Reading.ofTokens here ts
        writing (s.add r.pieces) ⟨none, r.vars⟩ (t ++ r.trace) := by
  induction ts with
  | nil =>
    rintro s ⟨_ | o, vars⟩ t
    · simp [finish, Reading.ofTokens, writing, Sentence.add_nil]
    · exact issue_writing s vars t (.unclosed o.word)
  | cons token ts ih =>
    intro s here t
    rw [List.foldl_cons, read_writing, written, ih, Reading.ofTokens]
    simp only [Sentence.add_append, List.append_assoc]

/-- **A scanner writes down the sentence that is read**, counts its characters, and leaves the same
variables and the same notes. -/
theorem scanText_eq (vars : Variables) (raw : String) :
    let r := Reading.ofText vars raw
    scanText vars raw = ⟨r.sentence.layout, r.sentence.size, none, r.vars, r.trace⟩ := by
  rw [scanText, scan_eq_foldl]
  exact finish_foldl_read (tokens raw.toList) ⟨[], []⟩ ⟨none, vars⟩ []

/-- The count of characters is the length of the text. -/
theorem len_scanText (vars : Variables) (raw : String) :
    (scanText vars raw).len = (scanText vars raw).out.text.length := by
  rw [scanText_eq]
  exact (Sentence.length_text _).symm

end Scanner

end Colloquy.Markup
