import Colloquy.Action
import Colloquy.Condition

/-!
# Conversation — scripts as graphs of dialogues

A conversation is a list of dialogues and the actions they may fire. A dialogue is some sentences
said by one speaker, followed by choices for the player or by a link to the next dialogue
(`Dialogue.next?`); links go by id. `Conversation.startingPoint` finds the dialogue that a
conversation starts with for some variables.
-/

namespace Colloquy

/-- The id that stands for no dialogue. -/
def noId : Int32 := -1

/-- The dialogue that an id links to, if it links to any. -/
def linkOf (id : Int32) : Option Int32 := if id = noId then none else some id

/-- The text of an id. -/
def idText (id : Int32) : String := toString id.toInt

/-- A choice of the player's: its text, where it leads, and the actions it fires. -/
structure Choice where
  text : String
  nextId : Int32
  actions : List String
deriving DecidableEq, Repr

/-- The dialogue that a choice leads to. -/
def Choice.next? (c : Choice) : Option Int32 := linkOf c.nextId

/-- One node of a conversation. -/
structure Dialogue where
  id : Int32
  nextId : Int32 := noId
  speaker : Option String := none
  sentences : List String := []
  choices : List Choice := []
  conditions : List Condition := []
  startingPoint : Bool := false
  autoProceed : Bool := false
  spriteSet : Option String := none
  startingSprite : Option String := none
  theme : Option String := none
  /-- The actions fired when the conversation ends with this dialogue. -/
  onFinished : List String := []
  anchor : Option String := none
deriving DecidableEq

namespace Dialogue

/-- The dialogue that follows. -/
def next? (d : Dialogue) : Option Int32 := linkOf d.nextId

/-- The speaker's name, unless it is blank. -/
def speaker? (d : Dialogue) : Option String := Text.present d.speaker

/-- The sprite set, unless it is blank. -/
def spriteSet? (d : Dialogue) : Option String := Text.present d.spriteSet

/-- The sprite to start with, unless it is blank. -/
def startingSprite? (d : Dialogue) : Option String := Text.present d.startingSprite

/-- The theme, unless it is blank. -/
def theme? (d : Dialogue) : Option String := Text.present d.theme

/-- The anchor, unless it is blank. -/
def anchor? (d : Dialogue) : Option String := Text.present d.anchor

end Dialogue

/-- What a dialogue goes on with: a sentence, the choices, another dialogue, or nothing. -/
inductive Outlook
  | sentence (raw : String)
  | choices
  | link (id : Int32)
  | ending
deriving DecidableEq, Repr

namespace Dialogue

/-- What a dialogue goes on with where some of its sentences have been said. Choices come before a
link. -/
def outlook (d : Dialogue) (said : Nat) : Outlook :=
  match d.sentences[said]? with
  | some raw => .sentence raw
  | none =>
    if d.choices = [] then
      match d.next? with
      | some id => .link id
      | none => .ending
    else .choices

/-- What a dialogue goes on with in the background, where choices are ignored. -/
def ambientOutlook (d : Dialogue) (said : Nat) : Outlook :=
  { d with choices := [] }.outlook said

end Dialogue

/-- A script. A background conversation plays by itself, beside the main one. -/
structure Conversation where
  dialogues : List Dialogue := []
  actions : List Action := []
  background : Bool := false
deriving DecidableEq, Inhabited

namespace Conversation

/-- The first dialogue of an id. -/
def dialogue? (c : Conversation) (id : Int32) : Option Dialogue :=
  c.dialogues.find? (·.id == id)

/-- Where the first dialogue of an id stands. -/
def dialogueIndex? (c : Conversation) (id : Int32) : Option Nat :=
  c.dialogues.findIdx? (·.id == id)

/-- The first action of a name. -/
def action? (c : Conversation) (name : String) : Option Action :=
  c.actions.find? (·.name == name)

theorem mem_of_dialogue? {c : Conversation} {id : Int32} {d : Dialogue}
    (h : c.dialogue? id = some d) : d ∈ c.dialogues ∧ d.id = id :=
  ⟨List.mem_of_find?_eq_some h, by simpa using List.find?_some h⟩

/-! ## Where to start -/

/-- Takes the better of the best starting point so far and those among further dialogues: the
one with the highest id whose conditions hold, the first of them if there are several. A dialogue
that could not be better is not looked at. -/
def bestStart (vars : Variables) : Option Dialogue → List Dialogue → Noted (Option Dialogue)
  | best, [] => ⟨best, []⟩
  | best, d :: ds =>
    if d.startingPoint && best.all fun b => decide (b.id < d.id) then
      let verdict := Condition.allHold vars d.conditions
      let rest := bestStart vars (if verdict.value then some d else best) ds
      ⟨rest.value, verdict.notes ++ rest.notes⟩
    else bestStart vars best ds

/-- The dialogue that a conversation starts with. -/
def startingPoint (c : Conversation) (vars : Variables) : Noted (Option Dialogue) :=
  bestStart vars none c.dialogues

theorem mem_of_bestStart {vars : Variables} {d : Dialogue} :
    ∀ {ds : List Dialogue} {best : Option Dialogue},
      (bestStart vars best ds).value = some d → best = some d ∨ d ∈ ds
  | [], best, h => .inl h
  | e :: ds, best, h => by
      rw [bestStart] at h
      split at h
      · rcases mem_of_bestStart h with h' | h'
        · split at h'
          · cases h'
            exact .inr (List.mem_cons_self ..)
          · exact .inl h'
        · exact .inr (List.mem_cons_of_mem _ h')
      · exact (mem_of_bestStart h).imp_right (List.mem_cons_of_mem _)

/-- A conversation starts with one of its dialogues. -/
theorem mem_of_startingPoint {c : Conversation} {vars : Variables} {d : Dialogue}
    (h : (c.startingPoint vars).value = some d) : d ∈ c.dialogues :=
  (mem_of_bestStart h).resolve_left (by simp)

end Conversation

end Colloquy
