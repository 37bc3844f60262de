import Colloquy.Audit
import Colloquy.Files
import Colloquy.Registry
import Colloquy.Ron
import Colloquy.Text.Blank

/-!
# Sprites — images by set and name

Images come in named sets, of two families: portraits of characters and parts of themes. A set is
registered as a whole (`Sprites.register`) and replaces one of its name and family; a manifest
registers many (`Sprites.loadManifest`). `Sprites.resolve` finds an image.
-/

namespace Colloquy

/-- The two families of sprite sets. -/
inductive SpriteFamily
  | character
  | theme
deriving DecidableEq, Repr

/-- The name of a family. -/
def SpriteFamily.name : SpriteFamily → String
  | character => "character"
  | theme => "theme"

/-- Why a sprite set or a manifest is refused. -/
inductive SpriteError
  | unreadableFile
  | malformed
  | emptySetName
  | emptySpriteName (set : String)
  | duplicateSprite (set sprite : String)
  | missingImage (set sprite : String)
deriving DecidableEq, Repr

/-- The wording of an error. -/
def SpriteError.message : SpriteError → String
  | unreadableFile => "IO error"
  | malformed => "RON deserialization error"
  | emptySetName => "sprite set needs a name"
  | emptySpriteName set => "sprite in set '" ++ set ++ "' has an empty name"
  | duplicateSprite set sprite => "sprite '" ++ sprite ++ "' appears twice in set '" ++ set ++ "'"
  | missingImage set sprite => "sprite '" ++ sprite ++ "' in set '" ++ set ++ "' has no image"

/-- A sprite of a set: its name and its image. -/
structure SpriteEntry where
  name : String
  image : String
deriving DecidableEq, Repr

/-- The images of a set by name. -/
abbrev SpriteSet := Registry String

/-- The sets of both families. -/
structure Sprites where
  characters : Registry SpriteSet
  themes : Registry SpriteSet
deriving Inhabited

namespace Sprites

/-- No sprites. -/
def empty : Sprites := ⟨.empty, .empty⟩

/-- The sets of a family. -/
def sets (s : Sprites) : SpriteFamily → Registry SpriteSet
  | .character => s.characters
  | .theme => s.themes

/-- The sprites with other sets in a family. -/
def withSets (s : Sprites) (family : SpriteFamily) (sets : Registry SpriteSet) : Sprites :=
  match family with
  | .character => { s with characters := sets }
  | .theme => { s with themes := sets }

/-- Adds the entries of a set to those taken so far, stopping at the first that is unfit. -/
def collect (set : String) (taken : SpriteSet) : List SpriteEntry → Except SpriteError SpriteSet
  | [] => .ok taken
  | e :: es =>
    if Text.IsBlank e.name then .error (.emptySpriteName set)
    else if Text.IsBlank e.image then .error (.missingImage set e.name)
    else if taken.contains e.name then .error (.duplicateSprite set e.name)
    else collect set (taken.insert e.name e.image) es

/-- The set that some entries make. -/
def buildSet (set : String) (entries : List SpriteEntry) : Audit SpriteError SpriteSet := do
  Audit.require (¬ Text.IsBlank set) .emptySetName
  Audit.noteIf (entries = []) (.warning "sprite set is empty")
  Audit.ofExcept (collect set .empty entries)

/-- Registers a set in the stead of an earlier one. -/
def register (s : Sprites) (family : SpriteFamily) (set : String) (entries : List SpriteEntry) :
    Audit SpriteError Sprites :=
  let built := buildSet set entries
  match built.result with
  | .error e => ⟨.error e, built.notes ++ [.failure e.message]⟩
  | .ok sprites =>
    ⟨.ok (s.withSets family ((s.sets family).insert set sprites)), built.notes ++
      if (s.sets family).contains set then
        [.warning (family.name ++ " sprite set overwritten")]
      else []⟩

/-- The image of a sprite. -/
def resolve (s : Sprites) (family : SpriteFamily) (set sprite : String) : Noted (Option String) :=
  if set = "" then ⟨none, []⟩
  else
    match (s.sets family).get? set with
    | none => ⟨none, [.failure (family.name ++ " set is not registered")]⟩
    | some sprites =>
      match sprites.get? sprite with
      | some image => ⟨some image, []⟩
      | none => ⟨none, [.warning (family.name ++ " sprite not found")]⟩

/-- Whether there is a theme of a name. -/
def hasTheme (s : Sprites) (theme : String) : Bool := s.themes.contains theme

/-! ## Manifests -/

/-- The sets of a manifest. -/
structure Manifest where
  characters : Registry (List SpriteEntry)
  themes : Registry (List SpriteEntry)

/-- Reads an entry. -/
def entryOfRon (r : Ron) : Option SpriteEntry := do
  let fs ← r.record? "SpriteEntry" ["name", "image"]
  let name ← fs.lookup "name" >>= Ron.text?
  let image ← fs.lookup "image" >>= Ron.text?
  return { name, image }

/-- Reads the sets of a family. Of two sets of one name the later one counts. -/
def setsOfRon (r : Ron) : Option (Registry (List SpriteEntry)) := do
  let entries ← r.map?
  entries.foldlM (fun sets (k, v) => do
    let name ← k.text?
    let es ← v.list? entryOfRon
    return sets.insert name es) .empty

/-- Reads a manifest. -/
def manifestOfRon (r : Ron) : Option Manifest := do
  let fs ← r.record? "SpriteManifest" ["characters", "themes"]
  let characters ← fs.read "characters" .empty setsOfRon
  let themes ← fs.read "themes" .empty setsOfRon
  return { characters, themes }

/-- What comes of loading: the sprites then, and whether all was well. -/
structure Loading where
  sprites : Sprites
  result : Except SpriteError Unit
  notes : List Note

/-- Registers sets one after the other, up to the first that is refused. -/
def registerAll (s : Sprites) (family : SpriteFamily) : List (String × List SpriteEntry) → Loading
  | [] => ⟨s, .ok (), []⟩
  | (set, entries) :: rest =>
    let first := s.register family set entries
    match first.result with
    | .error e => ⟨s, .error e, first.notes⟩
    | .ok s =>
      let more := registerAll s family rest
      { more with notes := first.notes ++ more.notes }

/-- Registers the character sets of a manifest, then its themes. -/
def loadManifest (s : Sprites) (m : Manifest) : Loading :=
  let first := s.registerAll .character m.characters.entries
  match first.result with
  | .error e => ⟨first.sprites, .error e, first.notes⟩
  | .ok () =>
    let more := first.sprites.registerAll .theme m.themes.entries
    { more with notes := first.notes ++ more.notes }

/-- Loads the manifest that a text writes. -/
def loadText (s : Sprites) (text : String) : Loading :=
  match (Ron.parse? text).bind manifestOfRon with
  | some m => s.loadManifest m
  | none => ⟨s, .error .malformed, []⟩

/-- Loads the manifest in a file. -/
def loadFile (s : Sprites) (file? : Option Node) : Loading :=
  match file?.bind Node.text? with
  | some text => s.loadText text
  | none => ⟨s, .error .unreadableFile, []⟩

end Sprites

end Colloquy
