import Colloquy.Conversation.Trail
import Colloquy.Stage

/-!
# Player — performing the main conversation

A `Player` performs one conversation at a time, on the main text box. It shows the sentences of a
dialogue one by one; then it offers the choices, or goes to the next dialogue, or fires the
dialogue's actions and ends. It waits for the player of the game between sentences (`Player.next`),
unless the dialogue proceeds by itself, and at the choices (`Player.select`). The theme outlives a
conversation; nothing else does, for there is no `Performance` while none is played.
-/

namespace Colloquy

open Markup

/-- What a performance is doing: revealing a sentence, waiting after it, or offering choices. -/
inductive Phase
  | revealing (r : Reveal)
  | settled
  | choosing
deriving DecidableEq

/-- A conversation that is being performed. -/
structure Performance where
  name : String
  script : Conversation
  dialogue : Dialogue
  /-- Where the sentence that was shown last stands in the dialogue, if it is one of it. -/
  sentenceIndex? : Option Nat := none
  /-- The sentence that was shown last. -/
  sentence : Sentence := ⟨[], []⟩
  lastSpeaker : Option String := none
  /-- Whether no sentence has been shown yet. -/
  opening : Bool := true
  phase : Phase := .settled
deriving DecidableEq

namespace Performance

/-- How many sentences of the dialogue have been shown. -/
def said (q : Performance) : Nat :=
  match q.sentenceIndex? with
  | some i => i + 1
  | none => 0

/-- The performance at the start of a dialogue. -/
def move (q : Performance) (d : Dialogue) : Performance :=
  { q with dialogue := d, sentenceIndex? := none }

/-- The reveal that goes on. -/
def reveal? (q : Performance) : Option Reveal :=
  match q.phase with
  | .revealing r => some r
  | _ => none

end Performance

/-- Who performs the main conversation: the theme, and the performance, if any. -/
structure Player where
  theme : Option String
  playing : Option Performance
deriving DecidableEq, Inhabited

/-- What comes of asking something of a player. -/
structure Turn where
  result : Except PlaybackError Unit
  player : Player
  stage : Stage

namespace Player

/-- A player that has not performed yet. -/
def idle : Player := ⟨none, none⟩

/-- The text of the sentence that was shown last. -/
def text? (p : Player) : Option String := p.playing.map (·.sentence.text)

/-- The speed at which a sentence is revealed. -/
def speed? (p : Player) : Option Single := p.playing.bind (·.reveal?.map (·.clock.speed))

/-- Whether a sentence is being revealed. -/
def isRevealing (p : Player) : Bool := (p.playing.bind (·.reveal?)).isSome

/-- Whether choices are offered. -/
def isChoosing (p : Player) : Bool := p.playing.any fun q => q.phase == .choosing

/-! ## Themes, requests and actions -/

/-- The theme changes. -/
def changeTheme (p : Player) (theme : String) (s : Stage) : Player × Stage :=
  ({ p with theme := some theme }, (s.observe [.theme theme]).report (.themeChanged theme))

/-- The conversation ends, if one is performed. -/
def stop (p : Player) (s : Stage) : Player × Stage :=
  match p.playing with
  | some q =>
    ({ p with playing := none }, (s.observe [.close .main]).report (.conversationEnded q.name))
  | none => (p, s)

/-- Answers a request. What concerns background conversations is left for others. -/
def answer (p : Player) (r : Request) (s : Stage) : Player × Stage :=
  match r with
  | .closeConversation => p.stop s
  | .changeTheme theme => p.changeTheme theme s
  | .startBackgroundConversation _ | .closeBackgroundConversations => (p, s.leave r)

/-- Fires declared actions one after the other, as long as the conversation goes on. -/
def fireAll (setting : Setting) (declared : List Action) : List String → Player → Stage →
    Player × Stage
  | [], p, s => (p, s)
  | name :: rest, p, s =>
    let (request?, s) := s.fire setting declared name .nothing
    match request? with
    | none => fireAll setting declared rest p s
    | some r =>
      let (p, s) := p.answer r s
      if p.playing.isSome then fireAll setting declared rest p s else (p, s)

/-! ## Sentences and dialogues -/

/-- Puts on the theme of a dialogue, unless it is on already. -/
def dress (p : Player) (d : Dialogue) (s : Stage) : Player × Stage :=
  match d.theme? with
  | some theme => if p.theme = some theme then (p, s) else p.changeTheme theme s
  | none => (p, s)

/-- The portrait that a dialogue starts with. -/
def portraitOf (setting : Setting) (d : Dialogue) (s : Stage) : Option String × Stage :=
  match d.spriteSet? with
  | some set => s.portrait setting set (d.startingSprite?.getD setting.config.defaultSprite)
  | none => (none, s)

/-- Introduces a speaker by name and portrait. -/
def introduce (setting : Setting) (d : Dialogue) (s : Stage) : Stage :=
  let s := s.observe [.speaker .main (d.speaker?.getD "")]
  let (image?, s) := portraitOf setting d s
  s.observe [.portrait .main image?]

/-- The reveal of a sentence. -/
def revealOf (setting : Setting) (q : Performance) (sentence : Sentence) : Reveal :=
  let t := setting.config.timings
  Reveal.ofSentence sentence t.charDelay (if q.opening then t.firstSentenceDelay else 0)

/-- Says the next sentence. A speaker is introduced unless it is the one who spoke last. -/
def say (setting : Setting) (q : Performance) (raw : String) (p : Player) (s : Stage) :
    Player × Stage :=
  let d := q.dialogue
  let sameSpeaker := !q.opening && q.lastSpeaker == d.speaker?
  let (p, s) := p.dress d s
  let (sentence, s) := s.read raw
  let s := s.observe [.sentence .main sentence.text d.speaker? sameSpeaker d.autoProceed]
  let s := if sameSpeaker then s else introduce setting d s
  ({ p with
      playing := some
        { q with
          sentenceIndex? := some q.said
          sentence
          lastSpeaker := d.speaker?
          opening := false
          phase := .revealing (revealOf setting q sentence) } }, s)

/-- Offers the choices. -/
def offer (q : Performance) (p : Player) (s : Stage) : Player × Stage :=
  ({ p with playing := some { q with phase := .choosing } },
    s.observe [.options (q.dialogue.choices.map (·.text))])

/-- Fires the actions that the dialogue ends with, and ends. -/
def finish (setting : Setting) (q : Performance) (p : Player) (s : Stage) : Player × Stage :=
  let (p, s) := fireAll setting q.script.actions q.dialogue.onFinished p s
  p.stop s

/-- Ends where there is no way on. -/
def fail (note : Note) (p : Player) (s : Stage) : Player × Stage := p.stop (s.annotate [note])

/-- Goes on in a dialogue that is not passed through. -/
def stay (setting : Setting) (q : Performance) (p : Player) (s : Stage) : Player × Stage :=
  match q.dialogue.outlook q.said with
  | .sentence raw => say setting q raw p s
  | .choices => offer q p s
  | .link _ | .ending => finish setting q p s

/-- Enters a dialogue. -/
def enter (setting : Setting) (q : Performance) (d : Dialogue) (p : Player) (s : Stage) :
    Player × Stage :=
  match q.script.trail? (·.outlook 0) d with
  | some ⟨_, .at d⟩ => stay setting (q.move d) p s
  | some ⟨_, .missing id⟩ => fail (.failure (PlaybackError.dialogueNotFound id).message) p s
  | none => fail circleNote p s

/-- Goes to the dialogue of an id. -/
def goTo (setting : Setting) (q : Performance) (id : Int32) (p : Player) (s : Stage) : Turn :=
  match q.script.dialogue? id with
  | some d =>
    let (p, s) := enter setting q d p s
    ⟨.ok (), p, s⟩
  | none =>
    let e := PlaybackError.dialogueNotFound id
    let (p, s) := fail (.failure e.message) p s
    ⟨.error e, p, s⟩

/-- Goes on after a sentence. -/
def advance (setting : Setting) (q : Performance) (p : Player) (s : Stage) : Player × Stage :=
  match q.dialogue.outlook q.said with
  | .link id =>
    let turn := goTo setting q id p s
    (turn.player, turn.stage)
  | _ => stay setting q p s

/-! ## What a player is asked for -/

/-- Nothing comes of it but an error, and a note. -/
def refuse (p : Player) (e : PlaybackError) (note : Note) (s : Stage) : Turn :=
  ⟨.error e, p, s.annotate [note]⟩

/-- Starts to perform a conversation. -/
def start (setting : Setting) (name : String) (script : Conversation) (p : Player) (s : Stage) :
    Turn :=
  if p.playing.isSome then
    p.refuse .alreadyActive (.warning ("cannot start: " ++ PlaybackError.alreadyActive.message)) s
  else
    match s.startingPoint script with
    | (none, s) =>
      let e := PlaybackError.noStartingPoint name
      p.refuse e (.failure e.message) s
    | (some d, s) =>
      let q : Performance := { name, script, dialogue := d }
      let (p, s) :=
        enter setting q d { p with playing := some q } (s.report (.conversationStarted name))
      ⟨.ok (), p, s⟩

/-- Goes on after a sentence that has been revealed. -/
def next (setting : Setting) (p : Player) (s : Stage) : Turn :=
  let ignore (e : PlaybackError) : Turn :=
    p.refuse e (.warning ("next() ignored: " ++ e.message)) s
  match p.playing with
  | none => ⟨.ok (), p, s⟩
  | some q =>
    match q.phase with
    | .choosing => ignore .awaitingOption
    | .revealing _ => ignore .stillRevealing
    | .settled =>
      let (p, s) := advance setting q p s
      ⟨.ok (), p, s⟩

/-- Makes a choice: its actions are fired, and the conversation goes where it leads, or ends. -/
def choose (setting : Setting) (q : Performance) (c : Choice) (p : Player) (s : Stage) : Turn :=
  let (p, s) := fireAll setting q.script.actions c.actions p s
  match p.playing, c.next? with
  | some _, some id => goTo setting q id p s
  | _, _ =>
    let (p, s) := p.stop s
    ⟨.ok (), p, s⟩

/-- Selects one of the choices that are offered. -/
def select (setting : Setting) (index : Nat) (p : Player) (s : Stage) : Turn :=
  match p.playing with
  | none => ⟨.ok (), p, s⟩
  | some q =>
    if q.phase = .choosing then
      match q.dialogue.choices[index]? with
      | some c => choose setting q c p s
      | none =>
        let e := PlaybackError.optionOutOfRange index q.dialogue.choices.length
        p.refuse e (.warning e.message) s
    else
      p.refuse .noOptions
        (.warning ("cannot select option " ++ toString index ++ ": " ++
          PlaybackError.noOptions.message)) s

/-! ## Time -/

/-- Does what is left to do for a command. -/
def followUp (p : Player) (s : Stage) : FollowUp → Player × Stage
  | .done => (p, s)
  | .request r => p.answer r s
  | .portrait image? => (p, s.observe [.portrait .main image?])
  | .theme theme => p.changeTheme theme s

/-- What happens while a sentence is revealed. A command that ends the conversation ends the
reveal. -/
def handler (setting : Setting) (declared : List Action) : Handler (Player × Stage) where
  onCharacter := fun (p, s) => (p, s.observe [.reveal .main])
  onTag := fun c k (p, s) =>
    let deed := s.carryOut setting declared k c
    let (p, s) := p.followUp deed.stage deed.followUp
    (if p.playing.isSome then some deed.clock else none, p, s)

/-- Time passes. -/
def tick (setting : Setting) (dt : Single) (p : Player) (s : Stage) : Player × Stage :=
  match p.playing.bind fun q => q.reveal?.map fun r => (q, r) with
  | none => (p, s)
  | some (q, r) =>
    match (r.elapse dt).run (handler setting q.script.actions) (p, s) with
    | (.waiting r, p, s) => ({ p with playing := some { q with phase := .revealing r } }, s)
    | (.broken, p, s) => (p, s)
    | (.finished, p, s) =>
      let q := { q with phase := .settled }
      let p := { p with playing := some q }
      let s := s.observe [.revealed .main]
      if q.dialogue.autoProceed then advance setting q p s else (p, s)

end Player

end Colloquy
