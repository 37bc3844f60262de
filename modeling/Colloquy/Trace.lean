/-!
# Trace — what an observer of a playback sees

Everything that a playback does to its surroundings is an `Entry` of a trace, in the order in which
it happens: what is put on a text box (a `Channel`), what is delivered to a game object, how the
variables change, and what is logged. A `Note` is a log line about a problem that playback goes on
from; it says what was wrong with a script or a call.
-/

namespace Colloquy

/-- The text box a performance is shown on. -/
inductive Channel
  | main
  | background (id : Nat)
deriving DecidableEq, Repr

/-- How much a log line matters. -/
inductive Severity
  | info
  | warn
  | error
deriving DecidableEq, Repr

/-- A log line about a problem. -/
structure Note where
  severity : Severity
  text : String
deriving DecidableEq, Repr

/-- A problem that does not stop what was asked for. -/
def Note.warning (text : String) : Note := ⟨.warn, text⟩

/-- A problem that stops what was asked for. -/
def Note.failure (text : String) : Note := ⟨.error, text⟩

/-- A change to the variable of a name. -/
inductive Change
  | registered (name : String)
  | updated (name : String)
  | removed (name : String)
deriving DecidableEq, Repr

/-- The name of the variable that changed. -/
def Change.name : Change → String
  | registered name | updated name | removed name => name

/-- One observable step. -/
inductive Entry
  /-- A sentence is laid out, with none of it visible yet. -/
  | sentence (channel : Channel) (text : String) (speaker : Option String)
      (sameSpeaker autoProceed : Bool)
  /-- One more character of the sentence becomes visible. -/
  | reveal (channel : Channel)
  /-- The whole sentence is visible. -/
  | revealed (channel : Channel)
  | speaker (channel : Channel) (name : String)
  | options (texts : List String)
  /-- The portrait changes; no image hides it. -/
  | portrait (channel : Channel) (image : Option String)
  | theme (name : String)
  | anchor (channel : Channel) (name : String)
  | close (channel : Channel)
  /-- A message goes to a named game object, which may not be there to take it. -/
  | deliver (target message : String) (accepted : Bool)
  /-- The listener of this number hears of a change. -/
  | change (listener : Nat) (change : Change)
  /-- A line logged by the script itself. -/
  | log (severity : Severity) (text : String)
  | note (note : Note)
deriving DecidableEq, Repr

/-- What was observed, oldest first. -/
abbrev Trace := List Entry

end Colloquy
