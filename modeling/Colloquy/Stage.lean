import Colloquy.Config
import Colloquy.Conversation
import Colloquy.Markup.Reading
import Colloquy.Reveal
import Colloquy.Sprites

/-!
# Stage — what performers act on

A `Stage` is all that a performer changes around itself: the variables, the requests it leaves for
others to carry out, the events it reports, and the trace of what was observed. A `Setting` is what
it finds there and leaves alone. `Stage.carryOut` has the effects of a command that are the same for
every performer, and hands the rest back as a `FollowUp`.
-/

namespace Colloquy

open Markup

/-- What is reported to the game. -/
inductive Event
  | conversationStarted (name : String)
  | conversationEnded (name : String)
  | themeChanged (theme : String)
  | backgroundStarted (id : Nat) (name : String)
  | backgroundFinished (id : Nat)
deriving DecidableEq, Repr

/-- Why playback does not do what it is asked for. -/
inductive PlaybackError
  | conversationNotFound (name : String)
  | alreadyActive
  | noStartingPoint (name : String)
  | dialogueNotFound (id : Int32)
  | noOptions
  | awaitingOption
  | optionOutOfRange (index count : Nat)
  | stillRevealing
deriving DecidableEq, Repr

/-- The wording of an error. -/
def PlaybackError.message : PlaybackError → String
  | conversationNotFound name => "conversation '" ++ name ++ "' is not registered"
  | alreadyActive => "a conversation is already running"
  | noStartingPoint name => "conversation '" ++ name ++ "' has no dialogue that can start it"
  | dialogueNotFound id =>
    "dialogue " ++ idText id ++ " does not exist in the running conversation"
  | noOptions => "no options are being shown"
  | awaitingOption => "an option must be selected first"
  | optionOutOfRange index count =>
    "option " ++ toString index ++ " is out of range, " ++ toString count ++ " shown"
  | stillRevealing => "the current sentence is still being revealed"

/-- The note on dialogues that lead round in a circle and have nothing to show. -/
def circleNote : Note := .failure "the dialogues lead round in a circle without a sentence"

/-- What a performer finds: the settings, the sprites, and which game objects take messages. -/
structure Setting where
  config : Config
  sprites : Sprites
  accepts : String → Bool

/-- What a performer changes. -/
structure Stage where
  vars : Variables
  requests : List Request
  events : List Event
  trace : Trace
deriving Inhabited

/-- What is left to do for a command: nothing, to answer a request, to change the portrait, or to
change the theme. -/
inductive FollowUp
  | done
  | request (r : Request)
  | portrait (image : Option String)
  | theme (name : String)
deriving DecidableEq, Repr

/-- What comes of a command: what is left to do, the clock to go on with, and the stage then. -/
structure Deed where
  followUp : FollowUp
  clock : Clock
  stage : Stage

namespace Stage

/-- A stage on which nothing has happened. -/
def ofVariables (vars : Variables) : Stage := ⟨vars, [], [], []⟩

/-- More was observed. -/
def observe (s : Stage) (t : Trace) : Stage := { s with trace := s.trace ++ t }

/-- Notes were taken. -/
def annotate (s : Stage) (notes : List Note) : Stage := s.observe (notes.map .note)

/-- An event is reported. -/
def report (s : Stage) (e : Event) : Stage := { s with events := s.events ++ [e] }

/-- A request is left for others. -/
def leave (s : Stage) (r : Request) : Stage := { s with requests := s.requests ++ [r] }

/-- The variables change. -/
def update {α : Type} (s : Stage) (u : Variables.Update α) : Stage :=
  { s with vars := u.vars }.observe u.trace

/-- Reads a raw sentence, which may bind variables. -/
def read (s : Stage) (raw : String) : Sentence × Stage :=
  let r := Reading.ofText s.vars raw
  (r.sentence, { s with vars := r.vars }.observe r.trace)

/-- Finds where a conversation starts. -/
def startingPoint (s : Stage) (c : Conversation) : Option Dialogue × Stage :=
  let found := c.startingPoint s.vars
  (found.value, s.annotate found.notes)

/-- Finds an image of a character. -/
def portrait (s : Stage) (setting : Setting) (set sprite : String) : Option String × Stage :=
  let found := setting.sprites.resolve .character set sprite
  (found.value, s.annotate found.notes)

/-- Fires an action of a conversation. What it asks for, if anything, is left to the performer. -/
def fire (s : Stage) (setting : Setting) (declared : List Action) (name : String)
    (supplied : Supplied) : Option Request × Stage :=
  let o := Action.performNamed setting.accepts declared name supplied
  (o.result.toOption.join, s.observe o.trace)

/-- Carries out a command of a sentence, as far as that is the same for every performer. -/
def carryOut (s : Stage) (setting : Setting) (declared : List Action) (k : Clock) :
    Command → Deed
  | .speed factor => ⟨.done, k.setSpeed factor, s⟩
  | .wait seconds => ⟨.done, k.pause seconds, s⟩
  | .removeVariable name => ⟨.done, k, s.update (s.vars.remove name)⟩
  | .log severity text => ⟨.done, k, s.observe [.log severity text]⟩
  | .sendMessage target message =>
    ⟨.done, k,
      if Text.IsBlank message then
        s.annotate [.warning "sendmessage tag without a message, skipping"]
      else s.observe (Action.deliver setting.accepts target message)⟩
  | .perform name supplied =>
    let (request?, s) := s.fire setting declared name supplied
    ⟨match request? with
      | some r => .request r
      | none => .done, k, s⟩
  | .closeBackgroundConversations => ⟨.request .closeBackgroundConversations, k, s⟩
  | .startBackgroundConversation name => ⟨.request (.startBackgroundConversation name), k, s⟩
  | .hideSprite => ⟨.portrait none, k, s⟩
  | .changeSprite set sprite =>
    let (image?, s) := s.portrait setting set sprite
    ⟨match image? with
      | some image => .portrait (some image)
      | none => .done, k, s⟩
  | .changeTheme name => ⟨.theme name, k, s⟩

end Stage

end Colloquy
