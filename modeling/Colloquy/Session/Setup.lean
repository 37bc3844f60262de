import Colloquy.Session

/-!
# Session/Setup — building a session from values and files

A `Setup` says what a session starts with. The settings, further conversations and the sprites may
also be given as paths of files, which are read in that order when the session is built; settings
and sprites that are given as values make their paths idle.
-/

namespace Colloquy

/-- Why a session cannot be built. -/
inductive SessionError
  | config (cause : ConfigError)
  | load (cause : LoadError)
  | sprites (cause : SpriteError)
deriving DecidableEq

/-- The wording of an error. -/
def SessionError.message : SessionError → String
  | config cause => "config error: " ++ cause.message
  | load cause => "load error: " ++ cause.message
  | sprites cause => "sprite error: " ++ cause.message

/-- What a session starts with. -/
structure Setup where
  library : Library := .empty
  /-- A directory of further conversations. -/
  directory? : Option String := none
  config? : Option Config := none
  configPath? : Option String := none
  sprites? : Option Sprites := none
  spritesPath? : Option String := none
  vars : Variables := .empty
  /-- Which game objects take messages. -/
  accepts : String → Bool := fun _ => false

namespace Setup

/-- The settings. -/
def config (setup : Setup) (files : Files) : Except ConfigError Config :=
  match setup.config?, setup.configPath? with
  | some config, _ => .ok config
  | none, some path => Config.ofFile (files path)
  | none, none => .ok {}

/-- The conversations. -/
def conversations (setup : Setup) (files : Files) : Audit LoadError Library :=
  match setup.directory? with
  | some path =>
    let loaded := setup.library.loadDirectory (files path)
    ⟨loaded.result.map fun _ => loaded.library, loaded.notes⟩
  | none => Audit.pass setup.library

/-- The sprites. -/
def images (setup : Setup) (files : Files) : Audit SpriteError Sprites :=
  match setup.sprites?, setup.spritesPath? with
  | some sprites, _ => Audit.pass sprites
  | none, some path =>
    let loaded := Sprites.empty.loadFile (files path)
    ⟨loaded.result.map fun _ => loaded.sprites, loaded.notes⟩
  | none, none => Audit.pass .empty

/-- Builds the session. -/
def build (setup : Setup) (files : Files) : Audit SessionError Session := do
  let config ← (Audit.ofExcept (setup.config files)).mapError .config
  let library ← (setup.conversations files).mapError .load
  let sprites ← (setup.images files).mapError .sprites
  return .new library { config, sprites, accepts := setup.accepts } setup.vars

end Setup

end Colloquy
