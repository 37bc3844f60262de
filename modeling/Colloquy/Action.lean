import Colloquy.Audit
import Colloquy.Text.Blank
import Colloquy.Text.Case

/-!
# Action — what a script can make happen

A script declares actions by name; an action's type names its `Effect`, and its message and target
may be left for the tag or option that fires it (`Supplied`). `Action.audit` is the check made when
a script is loaded and `Action.effect` the one made when an action fires. `Action.perform` runs an
action: a log line or a delivery happens at once, anything else is a `Request` to whoever plays
the script.
-/

namespace Colloquy

/-- What an action does. -/
inductive Effect
  | log (severity : Severity)
  | closeConversation
  | changeTheme
  | sendMessage
  | startBackgroundConversation
  | closeBackgroundConversations
deriving DecidableEq, Repr

namespace Effect

/-- The name of an effect. -/
def name : Effect → String
  | log .info => "Log"
  | log .warn => "LogWarning"
  | log .error => "LogError"
  | closeConversation => "CloseConversation"
  | changeTheme => "ChangeTheme"
  | sendMessage => "SendMessage"
  | startBackgroundConversation => "StartBackgroundConversation"
  | closeBackgroundConversations => "CloseBackgroundConversations"

/-- An effect's name in lower case, with each of its short forms. -/
def vocabulary : List (String × Effect) :=
  [("log", log .info), ("logwarning", log .warn), ("logerror", log .error),
    ("closeconversation", closeConversation), ("changetheme", changeTheme),
    ("sendmessage", sendMessage),
    ("startbackgroundconversation", startBackgroundConversation),
    ("startbgconversation", startBackgroundConversation),
    ("closebackgroundconversations", closeBackgroundConversations),
    ("closebgconversations", closeBackgroundConversations)]

/-- A name without underscores and white space, in lower case. -/
def key (name : String) : String :=
  Text.lowercase (String.ofList (name.toList.filter fun c => c ≠ '_' && !Text.isSpace c))

/-- The effect of a name, however it is cased and spaced. -/
def ofName? (name : String) : Option Effect := vocabulary.lookup (key name)

/-- Whether the effect is empty without a message. -/
def needsMessage : Effect → Bool
  | log _ | changeTheme | sendMessage | startBackgroundConversation => true
  | closeConversation | closeBackgroundConversations => false

/-- Whether the effect is empty without a target. -/
def needsTarget : Effect → Bool
  | sendMessage => true
  | _ => false

end Effect

/-- An action as a script declares it. -/
structure Action where
  name : String
  type : String
  message : Option String := none
  target : Option String := none
deriving DecidableEq, Repr

/-- The field that a tag or an option supplies when it fires an action. -/
inductive Supplied
  | nothing
  | message (text : String)
  | target (name : String)
deriving DecidableEq, Repr

/-- Why an action is refused. -/
inductive ActionError
  | notDeclared (name : String)
  | emptyName
  | unknownType (name type : String)
  | missingMessage (name : String) (effect : Effect)
  | missingTarget (name : String) (effect : Effect)
  | undelivered (target : String)
deriving DecidableEq, Repr

/-- The wording of a delivery that nobody takes. -/
def undeliveredMessage (target : String) : String := "no message target named '" ++ target ++ "'"

/-- The wording of an error. -/
def ActionError.message : ActionError → String
  | notDeclared name => "action '" ++ name ++ "' is not declared by the conversation"
  | emptyName => "action needs a name"
  | unknownType name type => "action '" ++ name ++ "' has unknown type '" ++ type ++ "'"
  | missingMessage name effect => "action '" ++ name ++ "' (" ++ effect.name ++ ") needs a message"
  | missingTarget name effect => "action '" ++ name ++ "' (" ++ effect.name ++ ") needs a target"
  | undelivered target => undeliveredMessage target

/-- An effect that whoever plays the script carries out. -/
inductive Request
  | closeConversation
  | changeTheme (name : String)
  | startBackgroundConversation (name : String)
  | closeBackgroundConversations
deriving DecidableEq, Repr

namespace Action

/-- The message, unless it is blank. -/
def message? (a : Action) : Option String := Text.present a.message

/-- The target, unless it is blank. -/
def target? (a : Action) : Option String := Text.present a.target

/-- The effect that the type names. -/
def effect? (a : Action) : Option Effect := Effect.ofName? a.type

/-- The effect of a type that is known. -/
def knownEffect (a : Action) : Except ActionError Effect :=
  match a.effect? with
  | some e => .ok e
  | none => .error (.unknownType a.name a.type)

/-- The effect of an action that has all that it needs. -/
def effect (a : Action) : Except ActionError Effect :=
  match a.knownEffect with
  | .error e => .error e
  | .ok e =>
    if e.needsMessage = true ∧ a.message? = none then .error (.missingMessage a.name e)
    else if e.needsTarget = true ∧ a.target? = none then .error (.missingTarget a.name e)
    else .ok e

/-- Checks an action when its script is loaded: it has a name and a known type. What else it needs
may be supplied when it fires. -/
def audit (a : Action) : Audit ActionError Effect := do
  Audit.require (¬ Text.IsBlank a.name) .emptyName
  let e ← Audit.ofExcept a.knownEffect
  match a.effect with
  | .ok _ => Audit.pass ()
  | .error lack =>
    Audit.note (.warning (lack.message ++ "; it must be supplied when the action fires"))
  return e

/-- The action with what was supplied for it. -/
def supply (a : Action) : Supplied → Action
  | .nothing => a
  | .message text => { a with message := some text }
  | .target name => { a with target := some name }

@[simp] theorem name_supply (a : Action) (supplied : Supplied) :
    (a.supply supplied).name = a.name := by cases supplied <;> rfl

@[simp] theorem type_supply (a : Action) (supplied : Supplied) :
    (a.supply supplied).type = a.type := by cases supplied <;> rfl

/-- What is supplied to an action does not change its effect. -/
theorem effect?_supply (a : Action) (supplied : Supplied) :
    (a.supply supplied).effect? = a.effect? := by
  rw [effect?, effect?, type_supply]

theorem knownEffect_supply (a : Action) (supplied : Supplied) :
    (a.supply supplied).knownEffect = a.knownEffect := by
  rw [knownEffect, knownEffect, effect?_supply, name_supply, type_supply]

/-- What comes of running an action. -/
structure Outcome where
  result : Except ActionError (Option Request)
  trace : Trace

/-- Nothing comes of it but an error. -/
def Outcome.failed (e : ActionError) (prelude : String) : Outcome :=
  ⟨.error e, [.note (.failure (prelude ++ e.message))]⟩

/-- Hands a message to a game object, if it accepts. -/
def deliver (accepts : String → Bool) (target message : String) : Trace :=
  .deliver target message (accepts target) ::
    if accepts target then [] else [.note (.failure (undeliveredMessage target))]

/-- Runs an action. The first argument says which targets take messages. -/
def perform (accepts : String → Bool) (a : Action) : Outcome :=
  let message := a.message?.getD ""
  match a.effect with
  | .error e => .failed e "skipping action: "
  | .ok (.log severity) => ⟨.ok none, [.log severity message]⟩
  | .ok .sendMessage =>
    let target := a.target?.getD ""
    ⟨if accepts target then .ok none else .error (.undelivered target),
      deliver accepts target message⟩
  | .ok .closeConversation => ⟨.ok (some .closeConversation), []⟩
  | .ok .changeTheme => ⟨.ok (some (.changeTheme message)), []⟩
  | .ok .startBackgroundConversation =>
    ⟨.ok (some (.startBackgroundConversation message)), []⟩
  | .ok .closeBackgroundConversations => ⟨.ok (some .closeBackgroundConversations), []⟩

/-- Runs the action of a name among those declared, with what was supplied for it. -/
def performNamed (accepts : String → Bool) (declared : List Action) (name : String)
    (supplied : Supplied) : Outcome :=
  match declared.find? (·.name == name) with
  | some a => (a.supply supplied).perform accepts
  | none => .failed (.notDeclared name) ""

end Action

end Colloquy
