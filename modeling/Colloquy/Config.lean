import Colloquy.Files
import Colloquy.Number.Shortest
import Colloquy.Ron

/-!
# Config — timings and defaults of a playback

A `Config` is read from a text that gives any of its fields and leaves the others at their defaults
(`Config.ofText`). Every delay has to be a number of seconds that is not negative.
-/

namespace Colloquy

/-- Delays, in seconds. -/
structure Timings where
  /-- Between the characters of the main conversation. -/
  charDelay : Single := Single.ofRatio false 35 1000
  /-- Before the first sentence of a main conversation. -/
  firstSentenceDelay : Single := Single.ofRatio false 3 10
  /-- Between the characters of background conversations. -/
  backgroundCharDelay : Single := Single.ofRatio false 1 10
  /-- Before each sentence of a background conversation. -/
  backgroundStartDelay : Single := Single.ofRatio false 4 10
  /-- In addition, where a background conversation has moved to another anchor. -/
  anchorChangeDelay : Single := Single.ofRatio false 4 10
  /-- After each sentence of a background conversation. -/
  backgroundEndDelay : Single := 1
deriving DecidableEq

/-- The settings of a playback. -/
structure Config where
  logLevel : String := "info"
  /-- The sprite of a speaker whose dialogue names a sprite set but no sprite. -/
  defaultSprite : String := "Default"
  timings : Timings := {}
deriving DecidableEq

/-- Why there is no configuration. -/
inductive ConfigError
  | unreadableFile
  | malformed
  | invalidDelay (name : String) (value : Single)
deriving DecidableEq

/-- The wording of an error. -/
def ConfigError.message : ConfigError → String
  | unreadableFile => "IO error"
  | malformed => "RON deserialization error"
  | invalidDelay name value =>
    "timing '" ++ name ++ "' must be a non-negative number of seconds, found " ++ value.toText

namespace Timings

/-- The delays by name, in the order in which they are checked. -/
def named (t : Timings) : List (String × Single) :=
  [("char_delay", t.charDelay), ("first_sentence_delay", t.firstSentenceDelay),
    ("background_char_delay", t.backgroundCharDelay),
    ("background_start_delay", t.backgroundStartDelay),
    ("anchor_change_delay", t.anchorChangeDelay),
    ("background_end_delay", t.backgroundEndDelay)]

/-- Reads delays. -/
def ofRon (r : Ron) : Option Timings := do
  let fs ← r.record? "RevealTimings" (Timings.named {} |>.map (·.1))
  let d : Timings := {}
  let charDelay ← fs.read "char_delay" d.charDelay Ron.single?
  let firstSentenceDelay ← fs.read "first_sentence_delay" d.firstSentenceDelay Ron.single?
  let backgroundCharDelay ← fs.read "background_char_delay" d.backgroundCharDelay Ron.single?
  let backgroundStartDelay ← fs.read "background_start_delay" d.backgroundStartDelay Ron.single?
  let anchorChangeDelay ← fs.read "anchor_change_delay" d.anchorChangeDelay Ron.single?
  let backgroundEndDelay ← fs.read "background_end_delay" d.backgroundEndDelay Ron.single?
  return { charDelay, firstSentenceDelay, backgroundCharDelay, backgroundStartDelay,
           anchorChangeDelay, backgroundEndDelay }

end Timings

namespace Config

/-- Reads settings. -/
def ofRon (r : Ron) : Option Config := do
  let fs ← r.record? "EngineConfig" ["log_level", "default_sprite_name", "timings"]
  let d : Config := {}
  let logLevel ← fs.read "log_level" d.logLevel Ron.text?
  let defaultSprite ← fs.read "default_sprite_name" d.defaultSprite Ron.text?
  let timings ← fs.read "timings" d.timings Timings.ofRon
  return { logLevel, defaultSprite, timings }

/-- Whether a delay is a number of seconds that is not negative. -/
def validDelay (x : Single) : Bool := x.isFinite && !x.isNegative

/-- Refuses settings with a delay that is none. -/
def check (c : Config) : Except ConfigError Config :=
  match c.timings.named.find? fun d => !validDelay d.2 with
  | some (name, value) => .error (.invalidDelay name value)
  | none => .ok c

/-- Reads settings from a text. -/
def ofText (text : String) : Except ConfigError Config :=
  match (Ron.parse? text).bind ofRon with
  | some c => c.check
  | none => .error .malformed

/-- Reads settings from a file. -/
def ofFile (file? : Option Node) : Except ConfigError Config :=
  match file?.bind Node.text? with
  | some text => ofText text
  | none => .error .unreadableFile

end Config

end Colloquy
