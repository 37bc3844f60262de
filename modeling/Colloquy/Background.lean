import Colloquy.Conversation.Trail
import Colloquy.Stage

/-!
# Background — performing a conversation beside the main one

A `Background` performs a conversation on a text box of its own and never waits for the player of
the game: it holds each sentence for a while and goes on, from dialogue to dialogue, until there is
no next one. On the way it moves to the anchors of the dialogues it enters. It has no portrait, no
theme and no choices; requests are left for others, but one that closes background conversations
ends it at once.
-/

namespace Colloquy

open Markup

/-- What a background conversation is doing: revealing a sentence, holding it for a time, or
nothing. -/
inductive AmbientPhase
  | revealing (r : Reveal)
  | holding (remaining : Single)
  | finished
deriving DecidableEq

/-- A background conversation. -/
structure Background where
  id : Nat
  name : String
  script : Conversation
  dialogue : Dialogue
  /-- Where the sentence that was shown last stands in the dialogue, if it is one of it. -/
  sentenceIndex? : Option Nat := none
  /-- The anchor that it moved to last. -/
  anchor : Option String := none
  /-- Whether it has moved since a sentence was shown, the move it starts with apart. -/
  moved : Bool := false
  lastSpeaker : Option String := none
  phase : AmbientPhase := .finished
deriving DecidableEq

namespace Background

/-- The text box of a background conversation. -/
def channel (b : Background) : Channel := .background b.id

/-- Whether it is over. -/
def isFinished (b : Background) : Bool := b.phase == .finished

/-- The dialogue that it is in. -/
def dialogue? (b : Background) : Option Dialogue :=
  if b.isFinished then none else some b.dialogue

/-- How many sentences of the dialogue have been shown. -/
def said (b : Background) : Nat :=
  match b.sentenceIndex? with
  | some i => i + 1
  | none => 0

/-- Ends it, unless it is over. -/
def finish (b : Background) (s : Stage) : Background × Stage :=
  if b.isFinished then (b, s)
  else
    ({ b with phase := .finished },
      (s.observe [.close b.channel]).report (.backgroundFinished b.id))

/-! ## Sentences and dialogues -/

/-- The delay before a sentence: longer after a move. -/
def startDelay (setting : Setting) (b : Background) : Single :=
  let t := setting.config.timings
  if b.moved then t.backgroundStartDelay + t.anchorChangeDelay else t.backgroundStartDelay

/-- Says the next sentence. -/
def say (setting : Setting) (raw : String) (b : Background) (s : Stage) : Background × Stage :=
  let d := b.dialogue
  let sameSpeaker := b.lastSpeaker.isSome && b.lastSpeaker == d.speaker?
  let (sentence, s) := s.read raw
  let charDelay := setting.config.timings.backgroundCharDelay
  ({ b with
      sentenceIndex? := some b.said
      lastSpeaker := d.speaker?
      moved := false
      phase := .revealing (Reveal.ofSentence sentence charDelay (b.startDelay setting)) },
    s.observe [.sentence b.channel sentence.text d.speaker? sameSpeaker true])

/-- Moves to the anchor of a dialogue that is entered, unless it is there already. -/
def visit (first : Bool) (b : Background) (s : Stage) (d : Dialogue) : Background × Stage :=
  let b := { b with dialogue := d, sentenceIndex? := none }
  match d.anchor? with
  | some anchor =>
    if b.anchor = some anchor then (b, s)
    else
      ({ b with anchor := some anchor, moved := !first }, s.observe [.anchor b.channel anchor])
  | none => (b, s)

/-- Enters dialogues one after the other, the first of them at the start or not. -/
def visitAll (first : Bool) (b : Background) (s : Stage) : List Dialogue → Background × Stage
  | [] => (b, s)
  | d :: ds =>
    let (b, s) := b.visit first s d
    visitAll false b s ds

/-- Goes on in a dialogue that is not passed through. -/
def stay (setting : Setting) (b : Background) (s : Stage) : Background × Stage :=
  match b.dialogue.ambientOutlook b.said with
  | .sentence raw => b.say setting raw s
  | _ => b.finish s

/-- Ends where there is no way on. -/
def fail (note : Note) (b : Background) (s : Stage) : Background × Stage :=
  b.finish (s.annotate [note])

/-- Enters a dialogue. -/
def enter (setting : Setting) (first : Bool) (d : Dialogue) (b : Background) (s : Stage) :
    Background × Stage :=
  match b.script.trail? (·.ambientOutlook 0) d with
  | some ⟨passed, .at d⟩ =>
    let (b, s) := b.visitAll first s (passed ++ [d])
    b.stay setting s
  | some ⟨passed, .missing id⟩ =>
    let (b, s) := b.visitAll first s passed
    b.fail (.failure (PlaybackError.dialogueNotFound id).message) s
  | none => b.fail circleNote s

/-- Goes on after a sentence. -/
def advance (setting : Setting) (b : Background) (s : Stage) : Background × Stage :=
  match b.dialogue.ambientOutlook b.said with
  | .link id =>
    match b.script.dialogue? id with
    | some d => b.enter setting false d s
    | none => b.fail (.failure (PlaybackError.dialogueNotFound id).message) s
  | _ => b.stay setting s

/-- Starts to perform a conversation under an id of its own. One that has nothing to show is
finished at once, and is not reported to be. -/
def start (setting : Setting) (id : Nat) (name : String) (script : Conversation) (s : Stage) :
    Except PlaybackError Background × Stage :=
  match s.startingPoint script with
  | (none, s) =>
    let e := PlaybackError.noStartingPoint name
    (.error e, s.annotate [.failure e.message])
  | (some d, s) =>
    let b : Background := { id, name, script, dialogue := d }
    let (b, s) := b.enter setting true d (s.report (.backgroundStarted id name))
    (.ok b, s)

/-! ## Time -/

/-- Does what is left to do for a command. Portraits and themes are of no concern here. -/
def followUp (b : Background) (s : Stage) : FollowUp → Background × Stage
  | .request .closeBackgroundConversations =>
    let (b, s) := b.finish s
    (b, s.leave .closeBackgroundConversations)
  | .request r => (b, s.leave r)
  | .done | .portrait _ | .theme _ => (b, s)

/-- What happens while a sentence is revealed. A command that ends the conversation ends the
reveal. -/
def handler (setting : Setting) (declared : List Action) : Handler (Background × Stage) where
  onCharacter := fun (b, s) => (b, s.observe [.reveal b.channel])
  onTag := fun c k (b, s) =>
    let deed := s.carryOut setting declared k c
    let (b, s) := b.followUp deed.stage deed.followUp
    (if b.isFinished then none else some deed.clock, b, s)

/-- Time passes. -/
def tick (setting : Setting) (dt : Single) (b : Background) (s : Stage) : Background × Stage :=
  match b.phase with
  | .finished => (b, s)
  | .holding remaining =>
    let b := { b with phase := .holding (remaining - dt) }
    if (remaining - dt).isSpent then b.advance setting s else (b, s)
  | .revealing r =>
    match (r.elapse dt).run (handler setting b.script.actions) (b, s) with
    | (.waiting r, b, s) => ({ b with phase := .revealing r }, s)
    | (.broken, b, s) => (b, s)
    | (.finished, b, s) =>
      ({ b with phase := .holding setting.config.timings.backgroundEndDelay },
        s.observe [.revealed b.channel])

end Background

end Colloquy
