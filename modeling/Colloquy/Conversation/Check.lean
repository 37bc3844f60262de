import Colloquy.Conversation

/-!
# Conversation/Check — which conversations are accepted

`Conversation.audit` checks a whole graph and stops at the first fault: actions have names and known
types, every id and every action that is mentioned is declared, once, every dialogue says something,
and every condition can be evaluated. `Conversation.prepare` then makes an accepted conversation
ready to play.
-/

namespace Colloquy

/-- Why a conversation is refused. -/
inductive ConversationError
  | empty
  | duplicateDialogue (id : Int32)
  | noSentences (dialogue : Int32)
  | emptySentence (dialogue : Int32)
  | spriteWithoutSet (dialogue : Int32)
  | danglingNext (dialogue nextId : Int32)
  | emptyChoice (dialogue : Int32)
  | deadEndChoice (dialogue : Int32)
  | undeclaredAction (dialogue : Int32) (action : String)
  | duplicateAction (name : String)
  | action (cause : ActionError)
  | condition (dialogue : Int32) (cause : ConditionError)
deriving DecidableEq, Repr

/-- The wording of an error. -/
def ConversationError.message : ConversationError → String
  | empty => "conversation has no dialogues"
  | duplicateDialogue id => "dialogue id " ++ idText id ++ " is used more than once"
  | noSentences d => "dialogue " ++ idText d ++ " has no sentences"
  | emptySentence d => "dialogue " ++ idText d ++ " has an empty sentence"
  | spriteWithoutSet d => "dialogue " ++ idText d ++ " names a starting sprite but no sprite set"
  | danglingNext d next => "dialogue " ++ idText d ++ " points to missing dialogue " ++ idText next
  | emptyChoice d => "dialogue " ++ idText d ++ " has an option with no text"
  | deadEndChoice d =>
    "dialogue " ++ idText d ++ " has an option with no actions and no next dialogue"
  | undeclaredAction d name => "dialogue " ++ idText d ++ " uses undeclared action '" ++ name ++ "'"
  | duplicateAction name => "action '" ++ name ++ "' is declared more than once"
  | action cause => cause.message
  | condition d cause => "dialogue " ++ idText d ++ ": " ++ cause.message

namespace Conversation

/-- Each action is sound, and named unlike those before it. -/
def auditActions (seen : List String) : List Action → Audit ConversationError Unit
  | [] => Audit.pass ()
  | a :: as => do
    let _ ← a.audit.mapError .action
    Audit.require (a.name ∉ seen) (.duplicateAction a.name)
    auditActions (a.name :: seen) as

/-- Each dialogue has an id unlike those before it. -/
def auditIds (seen : List Int32) : List Dialogue → Audit ConversationError Unit
  | [] => Audit.pass ()
  | d :: ds => do
    Audit.require (d.id ∉ seen) (.duplicateDialogue d.id)
    auditIds (d.id :: seen) ds

/-- A link goes to a dialogue of the conversation. -/
def auditLink (c : Conversation) (dialogue : Int32) : Option Int32 → Audit ConversationError Unit
  | none => Audit.pass ()
  | some id => Audit.require (id ∈ c.dialogues.map (·.id)) (.danglingNext dialogue id)

/-- The actions that a dialogue mentions are declared. -/
def auditNames (c : Conversation) (dialogue : Int32) (names : List String) :
    Audit ConversationError Unit :=
  Audit.each names fun name =>
    Audit.require (name ∈ c.actions.map (·.name)) (.undeclaredAction dialogue name)

/-- A choice has a text and does something. -/
def auditChoice (c : Conversation) (dialogue : Int32) (choice : Choice) :
    Audit ConversationError Unit := do
  Audit.require (¬ Text.IsBlank choice.text) (.emptyChoice dialogue)
  c.auditNames dialogue choice.actions
  Audit.require (choice.actions ≠ [] ∨ choice.next? ≠ none) (.deadEndChoice dialogue)
  c.auditLink dialogue choice.next?

/-- Checks one dialogue. -/
def auditDialogue (c : Conversation) (d : Dialogue) : Audit ConversationError Unit := do
  Audit.require (d.sentences ≠ []) (.noSentences d.id)
  Audit.require (∀ s ∈ d.sentences, ¬ Text.IsBlank s) (.emptySentence d.id)
  Audit.require (d.startingSprite? = none ∨ d.spriteSet? ≠ none) (.spriteWithoutSet d.id)
  c.auditLink d.id d.next?
  c.auditNames d.id d.onFinished
  Audit.each d.choices (c.auditChoice d.id)
  Audit.noteIf (c.background = true ∧ d.choices ≠ [])
    (.warning "background dialogues never show options; they are ignored")
  Audit.each d.conditions fun condition => condition.audit.mapError (.condition d.id)

/-- Checks the whole conversation. -/
def audit (c : Conversation) : Audit ConversationError Unit := do
  auditActions [] c.actions
  Audit.require (c.dialogues ≠ []) .empty
  auditIds [] c.dialogues
  Audit.each c.dialogues c.auditDialogue
  Audit.noteIf (∀ d ∈ c.dialogues, d.startingPoint = false)
    (.warning "no dialogue is marked as a starting point; the conversation cannot start")

/-- A dialogue made ready: its literals are read, and in the background it goes on by itself. -/
def prepareDialogue (background : Bool) (d : Dialogue) : Dialogue :=
  { d with
    autoProceed := background || d.autoProceed
    conditions := d.conditions.map Condition.prepare }

/-- The note on a dialogue that will go on by itself though its script does not say so. -/
def forcedNote (background : Bool) (d : Dialogue) : List Note :=
  if background && !d.autoProceed then
    [.warning "background dialogues always auto-proceed; autoProceed forced on"]
  else []

/-- The conversation made ready to play. -/
def prepare (c : Conversation) : Noted Conversation :=
  ⟨{ c with dialogues := c.dialogues.map (prepareDialogue c.background) },
    c.dialogues.flatMap (forcedNote c.background)⟩

end Conversation

end Colloquy
