import Colloquy.Proofs.Template
import Colloquy.Proofs.Text.Trim

/-!
# Proofs/Markup/Group — what a bracket group comes to

A bracket group that stands in no content is text as it stands unless it has a keyword
(`keyword?`), be it as a closing tag or as an opening one. With a keyword that encloses a content,
and a value, it opens a complex tag (`opens?`). With any other, or without a value, exactly one
piece comes of it (`yields_readGroup`).
-/

namespace Colloquy.Markup

/-! ## Words and keywords -/

/-- The word of an opening tag: what stands before the first equals sign, trimmed and in lower
case. -/
def tagWord (body : List Char) : String :=
  Text.lowerAscii (Text.trim (String.ofList (body.takeWhile (· ≠ '='))))

theorem ne_equals_of_isSpace {c : Char} (h : Text.isSpace c = true) : decide (c ≠ '=') = true := by
  refine decide_eq_true fun hc => ?_
  rw [hc] at h
  exact absurd h (by decide)

theorem openingParts_fst (body : List Char) : (openingParts body).1 = tagWord body := by
  rw [tagWord, Text.trim, String.toList_ofList,
    ← Text.trimChars_takeWhile (p := (· ≠ '=')) fun _ => ne_equals_of_isSpace]
  rfl

/-- The keyword of a group, as a closing tag or else as an opening one. -/
def keyword? (body : List Char) : Option Keyword :=
  match closingWord? body with
  | some word => Keyword.ofWord? word
  | none => Keyword.ofWord? (tagWord body)

/-- What a keyword does with the content that it encloses, if it is one that does. -/
def Keyword.closing? : Keyword → Option Closing
  | .enclosing e => some (.command e)
  | .register kind => some (.register kind)
  | _ => none

/-- The value of an opening tag, an empty value being none. -/
def tagValue? (body : List Char) : Option String := (openingParts body).2.filter (· ≠ "")

/-- The complex tag that a group opens: one whose keyword encloses a content, and with a value. -/
def opens? (body : List Char) : Option Opened :=
  match closingWord? body with
  | some _ => none
  | none =>
    ((Keyword.ofWord? (tagWord body)).bind Keyword.closing?).bind fun closing =>
      (tagValue? body).map fun value => ⟨closing, tagWord body, value, []⟩

section Opening

variable {body : List Char} (hc : closingWord? body = none)

include hc

theorem keyword?_of_opening : keyword? body = Keyword.ofWord? (tagWord body) := by
  rw [keyword?, hc]

theorem opens?_of_opening :
    opens? body = ((keyword? body).bind Keyword.closing?).bind fun closing =>
      (tagValue? body).map fun value => ⟨closing, tagWord body, value, []⟩ := by
  rw [keyword?_of_opening hc, opens?, hc]

end Opening

/-- A group that opens a complex tag has a keyword, and the tag goes by its word and has nothing in
it yet. -/
theorem of_opens? {body : List Char} {o : Opened} (h : opens? body = some o) :
    (∃ k, keyword? body = some k ∧ k.closing? = some o.closing) ∧ o.word = tagWord body ∧
      o.content = [] := by
  cases hc : closingWord? body with
  | some word =>
    rw [opens?, hc] at h
    cases h
  | none =>
    rw [opens?_of_opening hc] at h
    obtain ⟨closing, hclosing, h⟩ := Option.bind_eq_some_iff.1 h
    obtain ⟨value, -, rfl⟩ := Option.map_eq_some_iff.1 h
    exact ⟨Option.bind_eq_some_iff.1 hclosing, rfl, rfl⟩

/-! ## What comes of a group -/

/-- Whether a piece is a letter of the sentence, and not what came of a tag. -/
def Piece.isLetter : Piece → Bool
  | letter _ => true
  | _ => false

/-- What a group in no content may come to: it stays as it is, or it opens a complex tag, or one
piece comes of it. -/
inductive Yields (body : List Char) (vars : Variables) : Step → Prop
  | verbatim (hk : keyword? body = none) : Yields body vars (.verbatim body vars)
  | opening {o : Opened} (ho : opens? body = some o) : Yields body vars ⟨[], ⟨some o, vars⟩, []⟩
  | piece {k : Keyword} {p : Piece} {trace : Trace} (hk : keyword? body = some k)
    (ho : opens? body = none) (hp : p.isLetter = false) :
    Yields body vars ⟨[p], ⟨none, vars⟩, trace⟩

variable {body : List Char}

/-- A closing tag that closes nothing is an issue. -/
theorem yields_of_closingWord? {word : String} (hc : closingWord? body = some word)
    (vars : Variables) : Yields body vars (readGroup body vars) := by
  have hkeyword : keyword? body = Keyword.ofWord? word := by rw [keyword?, hc]
  have ho : opens? body = none := by rw [opens?, hc]
  rw [readGroup, hc]
  cases hk : Keyword.ofWord? word with
  | none =>
    simp only [hk]
    exact .verbatim (hkeyword.trans hk)
  | some k =>
    simp only [hk]
    exact .piece (hkeyword.trans hk) ho rfl

section Opening

variable {k : Keyword} (hc : closingWord? body = none) (hk : keyword? body = some k)

include hc hk

theorem opens?_eq_none (h : k.closing? = none ∨ tagValue? body = none) : opens? body = none := by
  rw [opens?_of_opening hc, hk, Option.bind_some]
  obtain h | h := h
  · rw [h, Option.bind_none]
  · simp only [h, Option.map_none, Option.bind_fun_none]

/-- A keyword with a value opens a complex tag, or one piece comes of it. -/
theorem yields_apply {value : String} (hv : tagValue? body = some value) (vars : Variables) :
    Yields body vars (k.apply (tagWord body) value vars) := by
  have hopens {closing : Closing} (h : k.closing? = some closing) :
      opens? body = some ⟨closing, tagWord body, value, []⟩ := by
    rw [opens?_of_opening hc, hk, Option.bind_some, h, Option.bind_some, hv, Option.map_some]
  cases k with
  | enclosing e => exact .opening (hopens rfl)
  | register kind => exact .opening (hopens rfl)
  | timed t =>
    have ho := opens?_eq_none hc hk (.inl rfl)
    unfold Keyword.apply
    cases Single.ofChars? value.toList with
    | some x => exact .piece hk ho rfl
    | none => exact .piece hk ho rfl
  | _ => exact .piece hk (opens?_eq_none hc hk (.inl rfl)) rfl

/-- A keyword without a value is an issue. -/
theorem yields_valued (vars : Variables) :
    Yields body vars (valued k (tagWord body) (openingParts body).2 vars) := by
  unfold valued
  cases hv : (openingParts body).2 with
  | none =>
    exact .piece hk (opens?_eq_none hc hk (.inr (by rw [tagValue?, hv, Option.filter_none]))) rfl
  | some value =>
    by_cases hne : value = ""
    · simp only [if_pos hne]
      exact .piece hk (opens?_eq_none hc hk (.inr (by simp [tagValue?, hv, hne]))) rfl
    · simp only [if_neg hne]
      exact yields_apply hc hk (by simp [tagValue?, hv, hne]) vars

end Opening

/-- **What a group comes to** in no content. -/
theorem yields_readGroup (body : List Char) (vars : Variables) :
    Yields body vars (readGroup body vars) := by
  cases hc : closingWord? body with
  | some word => exact yields_of_closingWord? hc vars
  | none =>
    have hread : readGroup body vars = readOpening body vars := by rw [readGroup, hc]
    rw [hread, readOpening_eq, openingParts_fst, ← keyword?_of_opening hc]
    cases hk : keyword? body with
    | none => exact .verbatim hk
    | some k =>
      cases k with
      | bare b => exact .piece hk (opens?_eq_none hc hk (.inl rfl)) rfl
      | _ => exact yields_valued hc hk vars

theorem opens?_of_unknown (hk : keyword? body = none) : opens? body = none := by
  refine Option.eq_none_iff_forall_ne_some.2 fun o ho => ?_
  obtain ⟨⟨k, hsome, -⟩, -⟩ := of_opens? ho
  rw [hk] at hsome
  cases hsome

/-- A group without a keyword stays as it is. -/
theorem readGroup_of_unknown (hk : keyword? body = none) (vars : Variables) :
    readGroup body vars = .verbatim body vars := by
  have hyields := yields_readGroup body vars
  generalize readGroup body vars = step at hyields ⊢
  cases hyields with
  | verbatim => rfl
  | opening ho =>
    rw [opens?_of_unknown hk] at ho
    cases ho
  | piece hsome =>
    rw [hk] at hsome
    cases hsome

/-- A group that opens a complex tag does nothing else. -/
theorem readGroup_of_opens? {o : Opened} (ho : opens? body = some o) (vars : Variables) :
    readGroup body vars = ⟨[], ⟨some o, vars⟩, []⟩ := by
  have hyields := yields_readGroup body vars
  generalize readGroup body vars = step at hyields ⊢
  cases hyields with
  | verbatim hk =>
    rw [opens?_of_unknown hk] at ho
    cases ho
  | opening ho' => rw [Option.some_inj.1 (ho.symm.trans ho')]
  | piece _ hnone =>
    rw [hnone] at ho
    cases ho

/-- The complex tag that is open behind a group is the one that it opens. -/
theorem opened_readGroup (body : List Char) (vars : Variables) :
    (readGroup body vars).standing.opened = opens? body := by
  have hyields := yields_readGroup body vars
  generalize readGroup body vars = step at hyields ⊢
  cases hyields with
  | verbatim hk => exact (opens?_of_unknown hk).symm
  | opening ho => exact ho.symm
  | piece _ ho => exact ho.symm

/-! ## What a complex tag comes to -/

/-- The piece that a complex tag becomes with its value and its content: a command, a binding, or
the issue of a content that cannot be bound. -/
def Opened.outcome (o : Opened) : Piece :=
  match o.closing with
  | .command e => .command (e.command o.value (String.ofList o.content))
  | .register kind =>
    match kind.parse? (String.ofList o.content) with
    | some v => .registration o.value v
    | none => .issue (.badLiteral o.word (String.ofList o.content))

/-- Closing a complex tag is that piece, with the binding that it makes. -/
theorem Opened.close_eq (o : Opened) (vars : Variables) :
    ∃ trace, o.close vars =
      ⟨[o.outcome], ⟨none, bindAll vars o.outcome.registration?.toList⟩, trace⟩ := by
  obtain ⟨closing, word, value, content⟩ := o
  cases closing with
  | command e => exact ⟨[], rfl⟩
  | register kind =>
    refine ⟨(vars.registerText value (String.ofList content) kind).trace, ?_⟩
    unfold close outcome
    cases h : kind.parse? (String.ofList content) with
    | some v =>
      simp only [h, Variables.registerText_of_readable h]
      rfl
    | none =>
      simp only [h, Variables.registerText_of_unreadable h]
      rfl

theorem Opened.isLetter_outcome (o : Opened) : o.outcome.isLetter = false := by
  unfold outcome
  split
  · rfl
  · split <;> rfl

/-- Nothing is shown of a complex tag. -/
theorem Opened.beats_outcome (o : Opened) :
    o.outcome.beats = o.outcome.command?.toList.map .tag := by
  unfold outcome
  split
  · rfl
  · split <;> rfl

theorem Opened.characters_beats_outcome (o : Opened) : characters o.outcome.beats = [] := by
  rw [beats_outcome]
  cases o.outcome.command? <;> rfl

theorem Opened.tagsFrom_beats_outcome (o : Opened) (n : Nat) (bs : List Beat) :
    tagsFrom n (o.outcome.beats ++ bs) =
      o.outcome.command?.toList.map (⟨n, ·⟩) ++ tagsFrom n bs := by
  rw [beats_outcome]
  cases o.outcome.command? <;> rfl

/-- A complex tag is closed by a closing tag that names no word, or its own. -/
theorem Opened.isClosedBy_iff {o : Opened} {body : List Char} :
    o.isClosedBy body = true ↔ closingWord? body = some "" ∨ closingWord? body = some o.word := by
  unfold isClosedBy
  cases closingWord? body <;> simp

/-- Inside of a complex tag, a token that does not close it is content. -/
theorem readToken_content {o : Opened} {t : Token}
    (h : ∀ body, t = .group body → o.isClosedBy body = false) (vars : Variables) :
    readToken ⟨some o, vars⟩ t =
      ⟨[], ⟨some { o with content := o.content ++ t.verbatim }, vars⟩, []⟩ := by
  cases t with
  | letter c => rfl
  | group body => simp only [readToken, h body rfl, Bool.false_eq_true, if_false]

end Colloquy.Markup
