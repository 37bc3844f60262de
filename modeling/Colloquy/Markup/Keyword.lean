import Colloquy.Action
import Colloquy.Value

/-!
# Markup/Keyword — the vocabulary of tags

A tag starts with a keyword. Some tags are a keyword alone, some give it a value after an equals
sign, and some enclose a content up to a closing tag. The last two stand for variables, one keyword
for each kind of value.
-/

namespace Colloquy.Markup

/-- What a tag asks for while its sentence is shown. -/
inductive Command
  | hideSprite
  | closeBackgroundConversations
  | speed (factor : Single)
  | wait (seconds : Single)
  | removeVariable (name : String)
  | perform (action : String) (supplied : Supplied)
  | log (severity : Severity) (text : String)
  | changeTheme (name : String)
  | startBackgroundConversation (name : String)
  | sendMessage (target message : String)
  | changeSprite (set sprite : String)
deriving DecidableEq

/-- How a tag is written: a keyword, a keyword with a value, or both around a content. -/
inductive Form
  | bare
  | simple
  | complex
deriving DecidableEq, Repr

/-- How the tag of a command is written. -/
def Command.form : Command → Form
  | hideSprite | closeBackgroundConversations => .bare
  | sendMessage .. | changeSprite .. => .complex
  | perform _ (.message _) | perform _ (.target _) => .complex
  | _ => .simple

/-- Keywords that stand alone. -/
inductive Bare
  | hideSprite
  | closeBackgroundConversations
deriving DecidableEq, Repr

/-- Keywords whose value is a number. -/
inductive Timed
  | speed
  | wait
deriving DecidableEq, Repr

/-- Keywords whose value is a text. -/
inductive Worded
  | removeVariable
  | perform
  | log (severity : Severity)
  | changeTheme
  | startBackgroundConversation
deriving DecidableEq, Repr

/-- Keywords that enclose a content. -/
inductive Enclosing
  | sendMessage
  | changeSprite
  | performWithMessage
  | performWithTarget
deriving DecidableEq, Repr

/-- The command of a keyword that stands alone. -/
def Bare.command : Bare → Command
  | hideSprite => .hideSprite
  | closeBackgroundConversations => .closeBackgroundConversations

/-- The command of a keyword with a number. -/
def Timed.command : Timed → Single → Command
  | speed => .speed
  | wait => .wait

/-- The command of a keyword with a text. -/
def Worded.command : Worded → String → Command
  | removeVariable, name => .removeVariable name
  | perform, name => .perform name .nothing
  | log severity, text => .log severity text
  | changeTheme, name => .changeTheme name
  | startBackgroundConversation, name => .startBackgroundConversation name

/-- The command of a keyword with a value and a content. -/
def Enclosing.command : Enclosing → String → String → Command
  | sendMessage, target, message => .sendMessage target message
  | changeSprite, set, sprite => .changeSprite set sprite
  | performWithMessage, action, text => .perform action (.message text)
  | performWithTarget, action, name => .perform action (.target name)

/-- A keyword. -/
inductive Keyword
  | bare (b : Bare)
  | timed (t : Timed)
  | worded (w : Worded)
  | enclosing (e : Enclosing)
  /-- Binds a variable to the value of a kind that the content writes. -/
  | register (kind : Kind)
  /-- Puts the value of a variable into the sentence. -/
  | retrieve (kind : Kind)
deriving DecidableEq, Repr

namespace Keyword

/-- The keywords that are single words. -/
def vocabulary : List (String × Keyword) :=
  [("hidesprite", .bare .hideSprite),
    ("closebgconversations", .bare .closeBackgroundConversations),
    ("closebg", .bare .closeBackgroundConversations),
    ("speed", .timed .speed), ("wait", .timed .wait),
    ("removevariable", .worded .removeVariable), ("action", .worded .perform),
    ("log", .worded (.log .info)), ("logwarning", .worded (.log .warn)),
    ("logerror", .worded (.log .error)), ("changetheme", .worded .changeTheme),
    ("bgconversation", .worded .startBackgroundConversation),
    ("sendmessage", .enclosing .sendMessage), ("changesprite", .enclosing .changeSprite),
    ("actionwithmessage", .enclosing .performWithMessage),
    ("actionwithtarget", .enclosing .performWithTarget)]

/-- What follows a word at the start of a text. -/
def after? (word text : String) : Option String :=
  if word.toList.isPrefixOf text.toList then
    some (String.ofList (text.toList.drop word.toList.length))
  else none

/-- The keyword of a word in lower case. After `register` and `retrieve` stands the name of a kind,
as it may be written anywhere. -/
def ofWord? (word : String) : Option Keyword :=
  match vocabulary.lookup word with
  | some k => some k
  | none =>
    match after? "register" word with
    | some kind => (Kind.ofName kind).toOption.map register
    | none =>
      match after? "retrieve" word with
      | some kind => (Kind.ofName kind).toOption.map retrieve
      | none => none

end Keyword

end Colloquy.Markup
