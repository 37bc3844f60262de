import Colloquy.Proofs.Markup.Scanner
import Colloquy.Proofs.Schedule

/-!
# Proofs/Cursor — a reveal as a place in a text

A `Reveal` has the beats before it that are to come. A `Cursor` stands in a layout instead, at a
count of characters and at the place of a tag. That tag is due as soon as so many characters have
been revealed as its index says; otherwise a character comes, as long as there are any. The cursor
shows a reveal if the tags from its place on are those of the beats to come, and so many characters
are left (`Cursor.Shows`). It takes the same step then, and shows the reveal afterwards
(`Cursor.Shows.step`), so that a cursor in what a scanner wrote down answers whatever it is asked as
the reveal of the sentence does (`Cursor.calls_scanText`), and at the end has left no tag behind
(`Cursor.Shows.of_finished`).
-/

namespace Colloquy

open Markup

/-- A place in a layout: how many characters there are, how many of them have been revealed, which
tag is next, and the clock. -/
structure Cursor where
  layout : Layout
  size : Nat
  revealed : Nat
  nextTag : Nat
  clock : Clock
deriving DecidableEq

namespace Cursor

/-- The cursor at the start of a layout. -/
def ofLayout (l : Layout) (charDelay initialDelay : Single) : Cursor :=
  ⟨l, l.text.length, 0, 0, Clock.start charDelay initialDelay⟩

/-- Time passes. -/
def elapse (c : Cursor) (dt : Single) : Cursor := { c with clock := c.clock.elapse dt }

/-- The speed changes. -/
def setSpeed (c : Cursor) (factor : Single) : Cursor := { c with clock := c.clock.setSpeed factor }

/-- The next step is held back for longer. -/
def pause (c : Cursor) (seconds : Single) : Cursor := { c with clock := c.clock.pause seconds }

/-- The command of the next tag, if it is due. -/
def due? (c : Cursor) : Option Command :=
  match c.layout.tags[c.nextTag]? with
  | some tag => if tag.index ≤ c.revealed then some tag.command else none
  | none => none

/-- Takes a step, if the clock allows. -/
def step (c : Cursor) : RevealStep × Cursor :=
  if c.clock.isWaiting then (.waiting, c)
  else
    match c.due? with
    | some command => (.tag command, { c with nextTag := c.nextTag + 1 })
    | none =>
      if c.revealed < c.size then
        (.character, { c with revealed := c.revealed + 1, clock := c.clock.afterCharacter })
      else (.finished, c)

/-- Answers a call. -/
def call (c : Cursor) : RevealCall → List RevealStep × Cursor
  | .elapse dt => ([], c.elapse dt)
  | .setSpeed factor => ([], c.setSpeed factor)
  | .pause seconds => ([], c.pause seconds)
  | .step => ([c.step.1], c.step.2)

/-- Answers calls one after the other. -/
def calls (c : Cursor) : List RevealCall → List RevealStep × Cursor
  | [] => ([], c)
  | k :: ks => ((c.call k).1 ++ ((c.call k).2.calls ks).1, ((c.call k).2.calls ks).2)

/-! ## What a cursor shows -/

/-- What is before the cursor are the beats to come of a reveal. -/
structure Shows (c : Cursor) (r : Reveal) : Prop where
  clock : c.clock = r.clock
  revealed : c.revealed = r.revealed
  size : c.size = r.revealed + (characters r.pending).length
  nextTag_le : c.nextTag ≤ c.layout.tags.length
  tags : c.layout.tags.drop c.nextTag = tagsFrom r.revealed r.pending

theorem shows_ofLayout (s : Sentence) (charDelay initialDelay : Single) :
    (ofLayout s.layout charDelay initialDelay).Shows
      (Reveal.ofSentence s charDelay initialDelay) where
  clock := rfl
  revealed := rfl
  size := s.length_text.trans (Nat.zero_add _).symm
  nextTag_le := Nat.zero_le _
  tags := rfl

variable {c : Cursor} {r : Reveal}

/-- The next tag is the first of those to come. -/
theorem Shows.getElem?_tags (h : c.Shows r) :
    c.layout.tags[c.nextTag]? = (tagsFrom r.revealed r.pending).head? := by
  rw [← h.tags, List.head?_drop]

/-- A tag that is the next beat is due. -/
theorem Shows.due?_of_tag (h : c.Shows r) {command : Command} {rest : List Beat}
    (hp : r.pending = .tag command :: rest) : c.due? = some command := by
  rw [due?, h.getElem?_tags, hp, tagsFrom_tag, List.head?_cons, h.revealed]
  exact if_pos (Nat.le_refl _)

/-- Where a character comes first, whatever tag there is stands behind it. -/
theorem Shows.due?_of_character (h : c.Shows r) {a : Char} {rest : List Beat}
    (hp : r.pending = .character a :: rest) : c.due? = none := by
  rw [due?, h.getElem?_tags, hp, tagsFrom_character]
  cases hnext : (tagsFrom (r.revealed + 1) rest).head? with
  | none => rfl
  | some tag =>
    have hindex := (index_of_mem_tagsFrom (List.mem_of_head? hnext)).1
    rw [h.revealed]
    exact if_neg (Nat.not_le_of_lt hindex)

theorem Shows.due?_of_nil (h : c.Shows r) (hp : r.pending = []) : c.due? = none := by
  rw [due?, h.getElem?_tags, hp]
  rfl

/-- A tag is left as long as there is one among the beats to come. -/
theorem Shows.nextTag_lt (h : c.Shows r) {command : Command} {rest : List Beat}
    (hp : r.pending = .tag command :: rest) : c.nextTag < c.layout.tags.length := by
  have hne : c.layout.tags.drop c.nextTag ≠ [] := by
    rw [h.tags, hp, tagsFrom_tag]
    exact List.cons_ne_nil _ _
  simpa using hne

/-- **A cursor takes the step of the reveal that it shows**, and shows it then. -/
theorem Shows.step (h : c.Shows r) : c.step.1 = r.step.1 ∧ c.step.2.Shows r.step.2 := by
  unfold Cursor.step Reveal.step
  rw [h.clock]
  split
  · exact ⟨rfl, h⟩
  · cases hp : r.pending with
    | nil =>
      have hend : ¬ c.revealed < c.size := by
        rw [h.size, h.revealed, hp]
        exact Nat.lt_irrefl _
      rw [h.due?_of_nil hp]
      dsimp only
      rw [if_neg hend]
      exact ⟨rfl, h⟩
    | cons b rest =>
      cases b with
      | character a =>
        have hmore : c.revealed < c.size := by
          rw [h.size, h.revealed, hp]
          exact Nat.lt_add_of_pos_right (Nat.succ_pos _)
        rw [h.due?_of_character hp]
        dsimp only
        rw [if_pos hmore]
        refine ⟨rfl, ⟨rfl, congrArg (· + 1) h.revealed, ?_, h.nextTag_le, ?_⟩⟩
        · rw [h.size, hp, characters_character, List.length_cons, Nat.add_right_comm, Nat.add_assoc]
        · rw [h.tags, hp, tagsFrom_character]
      | tag command =>
        rw [h.due?_of_tag hp]
        refine ⟨rfl, ⟨rfl, h.revealed, ?_, h.nextTag_lt hp, ?_⟩⟩
        · rw [h.size, hp, characters_tag]
        · rw [← List.tail_drop, h.tags, hp, tagsFrom_tag, List.tail_cons]

theorem Shows.call (h : c.Shows r) (k : RevealCall) :
    (c.call k).1 = (r.call k).1 ∧ (c.call k).2.Shows (r.call k).2 := by
  cases k with
  | elapse dt => exact ⟨rfl, { h with clock := congrArg (Clock.elapse · dt) h.clock }⟩
  | setSpeed factor => exact ⟨rfl, { h with clock := congrArg (Clock.setSpeed · factor) h.clock }⟩
  | pause seconds => exact ⟨rfl, { h with clock := congrArg (Clock.pause · seconds) h.clock }⟩
  | step => exact ⟨congrArg ([·]) h.step.1, h.step.2⟩

/-- **Whatever a cursor is asked, it answers as the reveal that it shows.** -/
theorem Shows.calls (ks : List RevealCall) :
    ∀ {c : Cursor} {r : Reveal}, c.Shows r →
      (c.calls ks).1 = (r.calls ks).1 ∧ (c.calls ks).2.Shows (r.calls ks).2 := by
  induction ks with
  | nil => exact fun h => ⟨rfl, h⟩
  | cons k ks ih =>
    intro c r h
    obtain ⟨hanswer, hthen⟩ := h.call k
    obtain ⟨hrest, hafter⟩ := ih hthen
    refine ⟨?_, hafter⟩
    rw [Cursor.calls, Reveal.calls, hanswer, hrest]

/-- **A cursor that tells the end has passed every tag**, and every character. -/
theorem Shows.of_finished (h : c.Shows r) (hf : c.step.1 = .finished) :
    c.nextTag = c.layout.tags.length ∧ c.revealed = c.size := by
  have hp : r.pending = [] := by
    rw [h.step.1] at hf
    obtain ⟨-, hs⟩ | ⟨-, hp, -⟩ | ⟨b, rest, -, -, hs, -⟩ := r.step_cases
    · rw [hs] at hf
      cases hf
    · exact hp
    · rw [hs] at hf
      cases b <;> cases hf
  constructor
  · have hdrop := h.tags
    rw [hp, tagsFrom_nil, List.drop_eq_nil_iff] at hdrop
    exact Nat.le_antisymm h.nextTag_le hdrop
  · rw [h.size, h.revealed, hp]
    rfl

/-- **A cursor in what a scanner wrote down reveals the sentence that is read**, whatever it is
asked: in any raw sentence, with any variables, and at any delays. -/
theorem calls_scanText (vars : Variables) (raw : String) (charDelay initialDelay : Single)
    (ks : List RevealCall) :
    let c := ofLayout (Scanner.scanText vars raw).out charDelay initialDelay
    let r := Reveal.ofSentence (Reading.ofText vars raw).sentence charDelay initialDelay
    (c.calls ks).1 = (r.calls ks).1 ∧ (c.calls ks).2.Shows (r.calls ks).2 := by
  dsimp only
  rw [Scanner.scanText_eq]
  exact Shows.calls ks (shows_ofLayout _ charDelay initialDelay)

end Cursor

end Colloquy
