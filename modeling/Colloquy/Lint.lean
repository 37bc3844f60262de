import Colloquy.Conversation.Check
import Colloquy.Conversation.Codec
import Colloquy.Conversation.Reach
import Colloquy.Markup.Reading
import Colloquy.Sprites

/-!
# Lint — what is wrong or suspicious about a script

A `Finding` is an error or a warning about a script. A script that cannot be read or is refused has
that one finding; any other is searched for markup that is dropped, actions that lack something, are
not declared or are never used, dialogues that are never reached, and sprites that are missing.
-/

namespace Colloquy

open Markup

/-- Something found about a script. -/
inductive Finding
  | unreadable
  | malformed (cause : Json.Error)
  | refused (cause : ConversationError)
  | unfitAction (cause : ActionError)
  | markup (dialogue : Int32) (issue : Issue)
  | undeclaredAction (dialogue : Int32) (action : String)
  | silent (dialogue : Int32)
  | unusedAction (name : String)
  | unreachable (dialogue : Int32)
  | themeWithoutSprites (dialogue : Int32) (theme : String)
  | missingSprite (dialogue : Int32) (set sprite : String)
deriving DecidableEq, Repr

namespace Finding

/-- Whether a finding is an error or only a warning. -/
def isError : Finding → Bool
  | unreadable | malformed _ | refused _ | undeclaredAction .. | missingSprite .. => true
  | _ => false

/-- The wording of a finding. -/
def message : Finding → String
  | unreadable => "stream did not contain valid UTF-8"
  | malformed cause => cause.message
  | refused cause => cause.message
  | unfitAction cause => cause.message
  | markup d issue => "dialogue " ++ idText d ++ ": " ++ issue.message
  | undeclaredAction d name =>
    "dialogue " ++ idText d ++ " fires undeclared action '" ++ name ++ "'"
  | silent d => "dialogue " ++ idText d ++ " has a sentence with no visible text"
  | unusedAction name => "action '" ++ name ++ "' is never used"
  | unreachable d => "dialogue " ++ idText d ++ " can never be reached"
  | themeWithoutSprites d theme =>
    "dialogue " ++ idText d ++ " uses theme '" ++ theme ++ "' with no sprites"
  | missingSprite d set sprite =>
    "dialogue " ++ idText d ++ " uses sprite '" ++ sprite ++ "' missing from set '" ++ set ++ "'"

end Finding

/-- The action that a command fires. -/
def Markup.Command.action? : Command → Option String
  | perform name _ => some name
  | _ => none

/-- The actions that a sentence fires. -/
def Markup.Sentence.actions (s : Sentence) : List String :=
  s.tags.filterMap (·.command.action?)

namespace Conversation

/-- The sentences of a conversation, each with the id of its dialogue, as they are read one after
the other. -/
def readSentences (vars : Variables) : List (Int32 × String) → List (Int32 × Sentence)
  | [] => []
  | (d, raw) :: rest =>
    let r := Reading.ofText vars raw
    (d, r.sentence) :: readSentences r.vars rest

/-- The sentences of a conversation, as they are read without any variables. -/
def sentences (c : Conversation) : List (Int32 × Sentence) :=
  readSentences .empty (c.dialogues.flatMap fun d => d.sentences.map (d.id, ·))

/-- What is found about the actions by themselves. -/
def lintActions (c : Conversation) : List Finding :=
  c.actions.filterMap fun a =>
    match a.effect with
    | .ok _ => none
    | .error e => some (.unfitAction e)

/-- What is found about a sentence of a dialogue. -/
def lintSentence (c : Conversation) (d : Int32) (s : Sentence) : List Finding :=
  s.issues.map (.markup d) ++
    (s.actions.filter fun name => (c.action? name).isNone).map (.undeclaredAction d) ++
    if Text.IsBlank s.text then [.silent d] else []

/-- The actions that are mentioned, by a tag or in a list. -/
def usedActions (c : Conversation) : List String :=
  c.sentences.flatMap (·.2.actions) ++
    c.dialogues.flatMap fun d => d.onFinished ++ d.choices.flatMap (·.actions)

/-- The actions that are not mentioned. -/
def lintUse (c : Conversation) : List Finding :=
  let used := c.usedActions
  ((c.actions.map (·.name)).filter fun name => !used.contains name).map .unusedAction

/-- What is found about the theme and the portrait of a dialogue. -/
def lintSprites (sprites : Sprites) (d : Dialogue) : List Finding :=
  let theme :=
    match d.theme? with
    | some theme => if sprites.hasTheme theme then [] else [.themeWithoutSprites d.id theme]
    | none => []
  let portrait :=
    match d.spriteSet? with
    | some set =>
      let sprite := d.startingSprite?.getD "Default"
      if (sprites.resolve .character set sprite).value.isSome then []
      else [.missingSprite d.id set sprite]
    | none => []
  theme ++ portrait

/-- What is found about a conversation that is accepted. -/
def lint (sprites? : Option Sprites) (c : Conversation) : List Finding :=
  c.lintActions ++ c.sentences.flatMap (fun s => c.lintSentence s.1 s.2) ++ c.lintUse ++
    c.unreachable.map .unreachable ++
    match sprites? with
    | some sprites => c.dialogues.flatMap (lintSprites sprites)
    | none => []

end Conversation

/-- What is found about a script: whether it is accepted, and the findings. -/
structure Verdict where
  accepted : Bool
  findings : List Finding
deriving DecidableEq, Repr

/-- Lints the text of a script, if there is one. -/
def Verdict.ofText? (sprites? : Option Sprites) (text? : Option String) : Verdict :=
  match text? with
  | none => ⟨false, [.unreadable]⟩
  | some text =>
    match Conversation.ofText text with
    | .error e => ⟨false, [.malformed e]⟩
    | .ok c =>
      match c.audit.result with
      | .error e => ⟨false, [.refused e]⟩
      | .ok () => ⟨true, c.lint sprites?⟩

end Colloquy
