import Colloquy.Markup.Sentence

/-!
# Reveal — showing a sentence character by character

A `Reveal` works through the beats of a sentence as its `Clock` allows. Time that passes is taken
off the delay that holds the next beat back, below zero if there is time to spare, and each
character adds to it; a long tick so reveals several characters. Time never runs backwards
(`Clock.elapse_of_not_positive`), and a step that is not held back takes one beat, as long as there
are any (`Reveal.length_pending_step`). `Reveal.run` takes steps until it is held back. The same
steps are told by a count of characters and the place of the next tag in Proofs/Cursor.
-/

namespace Colloquy

open Markup

/-- What holds the next beat back: the delay still to pass, the delay that a character adds, and a
factor on the latter. -/
structure Clock where
  delay : Single
  charDelay : Single
  speed : Single
deriving DecidableEq

namespace Clock

/-- A clock at normal speed. -/
def start (charDelay initialDelay : Single) : Clock := ⟨initialDelay.clamp, charDelay, 1⟩

/-- Time passes. -/
def elapse (k : Clock) (dt : Single) : Clock := { k with delay := k.delay - dt.clamp }

/-- The speed changes. A negative factor counts as zero. -/
def setSpeed (k : Clock) (factor : Single) : Clock := { k with speed := factor.clamp }

/-- The next beat is held back for longer. -/
def pause (k : Clock) (seconds : Single) : Clock := { k with delay := k.delay + seconds.clamp }

/-- A character has been revealed. -/
def afterCharacter (k : Clock) : Clock := { k with delay := k.delay + k.charDelay * k.speed }

/-- Whether the next beat is held back. -/
def isWaiting (k : Clock) : Bool := k.delay.isPositive

/-- **Time never runs backwards**: passing no positive time is passing none at all. -/
theorem elapse_of_not_positive {k : Clock} {dt : Single} (h : dt.isPositive = false) :
    k.elapse dt = k.elapse 0 := by
  have h0 : (0 : Single).clamp = 0 := by decide
  simp [elapse, Single.clamp_of_not_positive h, h0]

end Clock

/-- A sentence that is being revealed: the beats to come, the count of characters revealed, and
the clock. -/
structure Reveal where
  pending : List Beat
  revealed : Nat
  clock : Clock
deriving DecidableEq

/-- What a reveal does next. -/
inductive RevealStep
  | waiting
  | finished
  | character
  | tag (command : Command)
deriving DecidableEq

namespace Reveal

/-- A sentence of which nothing has been revealed. -/
def ofSentence (s : Sentence) (charDelay initialDelay : Single) : Reveal :=
  ⟨s.beats, 0, Clock.start charDelay initialDelay⟩

/-- Time passes. -/
def elapse (r : Reveal) (dt : Single) : Reveal := { r with clock := r.clock.elapse dt }

/-- The speed changes. -/
def setSpeed (r : Reveal) (factor : Single) : Reveal := { r with clock := r.clock.setSpeed factor }

/-- The next beat is held back for longer. -/
def pause (r : Reveal) (seconds : Single) : Reveal := { r with clock := r.clock.pause seconds }

/-- Takes the next beat, if the clock allows. -/
def step (r : Reveal) : RevealStep × Reveal :=
  if r.clock.isWaiting then (.waiting, r)
  else
    match r.pending with
    | [] => (.finished, r)
    | .character _ :: rest => (.character, ⟨rest, r.revealed + 1, r.clock.afterCharacter⟩)
    | .tag c :: rest => (.tag c, ⟨rest, r.revealed, r.clock⟩)

/-- Every step but waiting takes a beat, as long as there are any. -/
theorem length_pending_step (r : Reveal) :
    r.step.1 = .waiting ∨ r.step.1 = .finished ∨
      r.step.2.pending.length + 1 = r.pending.length := by
  unfold step
  split
  · exact .inl rfl
  · split
    · exact .inr (.inl rfl)
    · rename_i h
      exact .inr (.inr (by simp [h]))
    · rename_i h
      exact .inr (.inr (by simp [h]))

end Reveal

/-! ## Taking steps until there is nothing left to do -/

/-- How far a run of steps came: to a beat that is held back, to the end, or to a command that ended
it all. -/
inductive Progress
  | waiting (r : Reveal)
  | finished
  | broken
deriving DecidableEq

/-- What a run does at each step to some state: `onCharacter` as a character is revealed, and
`onTag` as a command is due, which gives the clock to go on with, unless it ends the run. -/
structure Handler (σ : Type) where
  onCharacter : σ → σ
  onTag : Command → Clock → σ → Option Clock × σ

namespace Reveal

variable {σ : Type}

/-- Takes steps among some beats, the count of characters before them and the clock given. -/
def runBeats (h : Handler σ) : List Beat → Nat → Clock → σ → Progress × σ
  | [], n, k, s => if k.isWaiting then (.waiting ⟨[], n, k⟩, s) else (.finished, s)
  | .character c :: rest, n, k, s =>
    if k.isWaiting then (.waiting ⟨.character c :: rest, n, k⟩, s)
    else runBeats h rest (n + 1) k.afterCharacter (h.onCharacter s)
  | .tag c :: rest, n, k, s =>
    if k.isWaiting then (.waiting ⟨.tag c :: rest, n, k⟩, s)
    else
      match h.onTag c k s with
      | (some k, s) => runBeats h rest n k s
      | (none, s) => (.broken, s)

/-- Takes steps as far as the clock allows. -/
def run (h : Handler σ) (r : Reveal) (s : σ) : Progress × σ :=
  runBeats h r.pending r.revealed r.clock s

/-- **A run is one step after the other.** -/
theorem run_eq (h : Handler σ) (r : Reveal) (s : σ) :
    r.run h s =
      match r.step with
      | (.waiting, r) => (.waiting r, s)
      | (.finished, _) => (.finished, s)
      | (.character, r) => r.run h (h.onCharacter s)
      | (.tag c, r) =>
        match h.onTag c r.clock s with
        | (some k, s) => ({ r with clock := k } : Reveal).run h s
        | (none, s) => (.broken, s) := by
  obtain ⟨pending, n, k⟩ := r
  unfold run step
  match pending with
  | [] => by_cases hw : k.isWaiting <;> simp [runBeats, hw]
  | .character c :: rest => by_cases hw : k.isWaiting <;> simp [runBeats, hw]
  | .tag c :: rest =>
    by_cases hw : k.isWaiting
    · simp [runBeats, hw]
    · simp only [runBeats, hw]
      rfl

end Reveal

end Colloquy
