import Colloquy.Conversation
import Colloquy.Json.Record

/-!
# Conversation/Codec — conversations as JSON

`Conversation.ofJson` reads a conversation from JSON, taking the default of each field that is left
out, and `Conversation.toJson` writes one with every field. `Conversation.ofText` and
`Conversation.toText` do the same with texts. The value of a literal is no part of the JSON form.
-/

namespace Colloquy

open Json

/-! ## Comparisons and conditions -/

/-- The comparison of a sign. -/
def Comparison.ofJson : Json → Except Json.Error Comparison :=
  asWord (Comparison.all.map fun c => (c.symbol, c))

/-- The fields of an operand. -/
def Operand.fields : List String := ["fromRepo", "name", "value", "type"]

/-- Reads an operand. -/
def Operand.ofJson (j : Json) : Except Json.Error Operand := do
  let fs ← record Operand.fields j
  let fromStore ← fs.read "fromRepo" false asBool
  let name ← fs.read "name" none asText?
  let value ← fs.read "value" none asText?
  let kind ← fs.read "type" none asText?
  return { fromStore, name, value, kind }

/-- The JSON form of an operand. -/
def Operand.toJson (o : Operand) : Json :=
  object [(some "fromRepo", bool o.fromStore), (some "name", ofText? o.name),
    (some "value", ofText? o.value), (some "type", ofText? o.kind)]

/-- Reads a condition. -/
def Condition.ofJson (j : Json) : Except Json.Error Condition := do
  let fs ← record ["variables", "comparison"] j
  let operands ← fs.read "variables" [] (asList Operand.ofJson)
  let comparison ← fs.require "comparison" Comparison.ofJson
  return { operands, comparison }

/-- The JSON form of a condition. -/
def Condition.toJson (c : Condition) : Json :=
  object [(some "variables", array (c.operands.map Operand.toJson)),
    (some "comparison", ofText c.comparison.symbol)]

/-! ## Actions -/

/-- Reads an action. -/
def Action.ofJson (j : Json) : Except Json.Error Action := do
  let fs ← record ["name", "type", "message", "target"] j
  let name ← fs.read "name" "" asText
  let type ← fs.read "type" "" asText
  let message ← fs.read "message" none asText?
  let target ← fs.read "target" none asText?
  return { name, type, message, target }

/-- The JSON form of an action. -/
def Action.toJson (a : Action) : Json :=
  object [(some "name", ofText a.name), (some "type", ofText a.type),
    (some "message", ofText? a.message), (some "target", ofText? a.target)]

/-! ## Dialogues -/

/-- Reads a choice. -/
def Choice.ofJson (j : Json) : Except Json.Error Choice := do
  let fs ← record ["text", "nextId", "selectedActionNames"] j
  let text ← fs.read "text" "" asText
  let nextId ← fs.read "nextId" noId asInt32
  let actions ← fs.read "selectedActionNames" [] (asList asText)
  return { text, nextId, actions }

/-- The JSON form of a choice. -/
def Choice.toJson (c : Choice) : Json :=
  object [(some "text", ofText c.text), (some "nextId", integer c.nextId.toInt),
    (some "selectedActionNames", array (c.actions.map ofText))]

/-- The fields of a dialogue. -/
def Dialogue.fields : List String :=
  ["id", "nextId", "speakersName", "sentences", "options", "startConditions",
    "canBeUsedAsStartingPoint", "autoProceed", "characterSpritesName", "startingSprite", "theme",
    "onFinishedActionNames", "anchorObject"]

/-- Reads a dialogue. -/
def Dialogue.ofJson (j : Json) : Except Json.Error Dialogue := do
  let fs ← record Dialogue.fields j
  let id ← fs.require "id" asInt32
  let nextId ← fs.read "nextId" noId asInt32
  let speaker ← fs.read "speakersName" none asText?
  let sentences ← fs.read "sentences" [] (asList asText)
  let choices ← fs.read "options" [] (asList Choice.ofJson)
  let conditions ← fs.read "startConditions" [] (asList Condition.ofJson)
  let startingPoint ← fs.read "canBeUsedAsStartingPoint" false asBool
  let autoProceed ← fs.read "autoProceed" false asBool
  let spriteSet ← fs.read "characterSpritesName" none asText?
  let startingSprite ← fs.read "startingSprite" none asText?
  let theme ← fs.read "theme" none asText?
  let onFinished ← fs.read "onFinishedActionNames" [] (asList asText)
  let anchor ← fs.read "anchorObject" none asText?
  return { id, nextId, speaker, sentences, choices, conditions, startingPoint, autoProceed,
           spriteSet, startingSprite, theme, onFinished, anchor }

/-- The JSON form of a dialogue. -/
def Dialogue.toJson (d : Dialogue) : Json :=
  object [(some "id", integer d.id.toInt), (some "nextId", integer d.nextId.toInt),
    (some "speakersName", ofText? d.speaker),
    (some "sentences", array (d.sentences.map ofText)),
    (some "options", array (d.choices.map Choice.toJson)),
    (some "startConditions", array (d.conditions.map Condition.toJson)),
    (some "canBeUsedAsStartingPoint", bool d.startingPoint),
    (some "autoProceed", bool d.autoProceed),
    (some "characterSpritesName", ofText? d.spriteSet),
    (some "startingSprite", ofText? d.startingSprite), (some "theme", ofText? d.theme),
    (some "onFinishedActionNames", array (d.onFinished.map ofText)),
    (some "anchorObject", ofText? d.anchor)]

/-! ## Conversations -/

/-- The words for the two sorts of conversation; the first of each is the one that is written. -/
def backgroundWords : List (String × Bool) :=
  [("DEFAULT", false), ("default", false), ("Default", false),
    ("BACKGROUND", true), ("background", true), ("Background", true)]

namespace Conversation

/-- Reads a conversation. -/
def ofJson (j : Json) : Except Json.Error Conversation := do
  let fs ← record ["conversation", "actions", "conversationType"] j
  let dialogues ← fs.read "conversation" [] (asList Dialogue.ofJson)
  let actions ← fs.read "actions" [] (asList Action.ofJson)
  let background ← fs.read "conversationType" false (asWord backgroundWords)
  return { dialogues, actions, background }

/-- The JSON form of a conversation. -/
def toJson (c : Conversation) : Json :=
  object [(some "conversation", array (c.dialogues.map Dialogue.toJson)),
    (some "actions", array (c.actions.map Action.toJson)),
    (some "conversationType", ofText (if c.background then "BACKGROUND" else "DEFAULT"))]

/-- Reads a conversation from the text of a script. -/
def ofText (text : String) : Except Json.Error Conversation := Json.parse text >>= ofJson

/-- The text of a script with every field written out. -/
def toText (c : Conversation) : String := c.toJson.toText

end Conversation

end Colloquy
