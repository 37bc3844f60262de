import Colloquy.Output
import Colloquy.Session.Setup
import Colloquy.Text.FinalSigma

/-!
# Preview — playing conversations in a terminal

A preview is a session that is driven by typed lines. An `Order` is what a line asks for; carrying
it out prints what is shown, one line for each observation that a reader should see (`Entry.lines`),
then what is to be said about the order itself, then the events.
-/

namespace Colloquy

/-! ## What is shown -/

/-- The label of a text box. -/
def Channel.label : Channel → String
  | main => "main"
  | background id => "bg#" ++ toString id

/-- The lines for an observation. -/
def Entry.lines : Entry → List String
  | sentence c text name? _ _ => ["[" ++ c.label ++ "] " ++ name?.getD "..." ++ ": " ++ text]
  | revealed .main => ["  (revealed)"]
  | options texts => (texts.zipIdx).map fun (text, i) => "  " ++ toString i ++ ") " ++ text
  | portrait c (some image) => ["  [" ++ c.label ++ "] sprite -> " ++ image]
  | portrait c none => ["  [" ++ c.label ++ "] sprite hidden"]
  | theme name => ["  theme -> " ++ name]
  | anchor c name => ["  [" ++ c.label ++ "] moves to " ++ name]
  | close c => ["  [" ++ c.label ++ "] closed"]
  | deliver target message _ => ["  message " ++ target ++ " <- " ++ message]
  | reveal _ | revealed (.background _) | speaker .. | change .. | log .. | note _ => []

/-- The line for an event. -/
def Event.line : Event → String
  | conversationStarted name => "  * '" ++ name ++ "' started"
  | conversationEnded name => "  * '" ++ name ++ "' ended"
  | themeChanged theme => "  * theme is now '" ++ theme ++ "'"
  | backgroundStarted id name =>
    "  * background '" ++ name ++ "' started as " ++ (Channel.background id).label
  | backgroundFinished id => "  * " ++ (Channel.background id).label ++ " finished"

/-! ## Orders -/

/-- What a line asks for. -/
inductive Order
  | nothing
  | quit
  | help
  | start (name : String)
  | next
  | option (index : Nat)
  | tick (seconds : Single)
  | vars
  | set (kind : Kind) (name raw : String)
  | list
  | stop
  | unknown (word : String)
  /-- An order that lacks something, with the lines that say so. -/
  | unclear (lines : List String)

namespace Order

/-- The order to start a conversation. -/
def ofStart (word : String) : List String → Order
  | name :: _ => start name
  | [] => unclear ["Usage: " ++ word ++ " <name>"]

/-- The order to pick a choice. -/
def ofOption (args : List String) : Order :=
  match args.head?.bind fun n => countOfChars? n.toList with
  | some n => option n
  | none => unclear ["Usage: option <n>"]

/-- Whether a number of seconds may pass. -/
def isDuration (x : Single) : Bool :=
  match x.rank? with
  | some r => decide (0 ≤ r)
  | none => false

/-- The order to let time pass. -/
def ofTick (args : List String) : Order :=
  match args.head?.bind fun n => Single.ofChars? n.toList with
  | some seconds => if isDuration seconds then tick seconds else unclear ["Usage: tick <seconds>"]
  | none => unclear ["Usage: tick <seconds>"]

/-- The order to set a variable. -/
def ofSet : List String → Order
  | kind :: name :: first :: rest =>
    match Kind.ofName kind with
    | .ok kind => set kind name (String.intercalate " " (first :: rest))
    | .error e => unclear ["ERROR: " ++ e.message]
  | _ =>
    unclear ["Usage: set <kind> <name> <value>", "  kind: short, int, long, float, bool, string"]

/-- The order that a line gives. -/
def ofLine (line : String) : Order :=
  match Text.words line with
  | [] => nothing
  | first :: args =>
    let word := Text.lowercaseInContext first
    if word ∈ ["quit", "exit", "q"] then quit
    else if word ∈ ["help", "h", "?"] then help
    else if word ∈ ["start", "bg"] then ofStart word args
    else if word ∈ ["next", "n"] then next
    else if word ∈ ["option", "o"] then ofOption args
    else if word = "tick" then ofTick args
    else if word = "vars" then vars
    else if word = "set" then ofSet args
    else if word = "list" then list
    else if word = "stop" then stop
    else unknown word

end Order

namespace Preview

/-- The lines that explain the orders. -/
def helpLines : List String :=
  ["Commands:",
    "  start <name>                Start a conversation",
    "  bg <name>                   Start a background conversation",
    "  next | n                    Finish revealing, or advance",
    "  option <n> | o <n>          Pick a shown option",
    "  tick <seconds>              Let reveal time pass",
    "  vars                        List variables",
    "  set <kind> <name> <value>   Register a variable",
    "  list                        List loaded conversations",
    "  stop                        Close the main conversation",
    "  help                        Show this help",
    "  quit                        Exit"]

/-- Long enough to finish a sentence at once. -/
def skipTime : Single := .ofRatio false 3600 1

/-- The line for an error, if there is one. -/
def errorLines {α : Type} : Except PlaybackError α → List String
  | .ok _ => []
  | .error e => ["ERROR: " ++ e.message]

/-- The lines for the variables. -/
def variableLines (vars : Variables) : List String :=
  match vars.bindings.entries with
  | [] => ["No variables registered."]
  | entries => entries.map fun (name, v) =>
      "  " ++ name ++ ": " ++ v.kind.name ++ " = " ++ v.toText

/-- The lines for the conversations. -/
def libraryLines (l : Library) : List String :=
  l.scripts.entries.map fun (name, c) =>
    "  " ++ name ++ if c.background then " (background)" else ""

/-- Does what an order asks of a session, and gives the lines about the order itself. -/
def perform (x : Session) : Order → Session × List String
  | .start name =>
    let a := x.start name
    (a.session, match a.result with
      | .ok c => ["Started '" ++ name ++ "' on " ++ c.label]
      | .error e => ["ERROR: " ++ e.message])
  | .next =>
    if x.player.isRevealing then (x.tick skipTime, [])
    else
      let a := x.next
      (a.session, errorLines a.result)
  | .option index =>
    let a := x.select index
    (a.session, errorLines a.result)
  | .tick seconds => (x.tick seconds, [])
  | .set kind name raw =>
    let (result, x) := x.updateVariables (·.registerText name raw kind)
    (x, match result with
      | .ok () => []
      | .error e => ["ERROR: " ++ e.message])
  | .stop => (x.stop, [])
  | .vars => (x, variableLines x.stage.vars)
  | .list => (x, libraryLines x.library)
  | .help => (x, helpLines)
  | .unknown word =>
    (x, ["Unknown command: '" ++ word ++ "'. Type 'help' for available commands."])
  | .quit => (x, ["Goodbye."])
  | .unclear lines => (x, lines)
  | .nothing => (x, [])

/-- The lines that end the answer to an order: the events, and a reminder of the choices. -/
def closingLines (x : Session) (events : List Event) : List String :=
  events.map Event.line ++ if x.player.isChoosing then ["  (choose with 'option <n>')"] else []

/-- Answers an order: the session then, and the lines to print. -/
def answer (x : Session) (order : Order) : Session × List String :=
  match order with
  | .nothing | .quit | .unclear _ => perform x order
  | _ =>
    let (x, lines) := perform { x with stage := { x.stage with trace := [] } } order
    let (events, y) := x.drain
    (y, x.stage.trace.flatMap Entry.lines ++ lines ++ closingLines y events)

/-- What is printed before each line is read. -/
def prompt : String := "preview> "

/-- What is printed while lines are answered, up to the order to quit. -/
def transcript (x : Session) : List String → String
  | [] => prompt
  | line :: rest =>
    let order := Order.ofLine line
    let (x, lines) := answer x order
    prompt ++ unlines lines ++
      match order with
      | .quit => ""
      | _ => transcript x rest

/-! ## The command line -/

/-- What the options of a command line name. -/
structure Options where
  directory? : Option String := none
  configPath? : Option String := none
  spritesPath? : Option String := none

/-- Reads options, or gives the one that is not known. -/
def Options.ofArgs : List String → Options → Except String Options
  | "--conversations" :: path :: rest, o => ofArgs rest { o with directory? := some path }
  | "--config" :: path :: rest, o => ofArgs rest { o with configPath? := some path }
  | "--sprites" :: path :: rest, o => ofArgs rest { o with spritesPath? := some path }
  | [], o => .ok o
  | unknown :: _, _ => .error unknown

/-- How the program is called. -/
def usageLine : String :=
  "Usage: preview --conversations <dir> [--config <engine.ron>] [--sprites <manifest.ron>]"

/-- The lines that a preview starts with. -/
def greeting (x : Session) : List String :=
  ["Loaded " ++ toString x.library.scripts.size ++ " conversations",
    "Type 'help' for commands.", ""]

/-- Opens a session as some options ask for. -/
def openSession (files : Files) (o : Options) : Except String Session :=
  match ({ configPath? := o.configPath? } : Setup).config files with
  | .error e => .error ("ERROR: Failed to load config: " ++ e.message)
  | .ok config =>
    let setup : Setup :=
      { directory? := o.directory?, config? := some config, spritesPath? := o.spritesPath?
        accepts := fun _ => true }
    match (setup.build files).result with
    | .error e => .error ("ERROR: " ++ e.message)
    | .ok x => .ok x

/-- The session that a command line opens, or what is printed in its stead. -/
def ofArgs (files : Files) (args : List String) : Except Output Session :=
  match args with
  | [] | "--help" :: _ | "-h" :: _ => .error (.ofLines 0 [usageLine] [])
  | _ =>
    match Options.ofArgs args {} with
    | .error unknown => .error (.ofLines 1 [usageLine] ["Unknown argument: " ++ unknown])
    | .ok o => (openSession files o).mapError fun line => .ofLines 1 [] [line]

/-- What a command line and the lines typed after it come to. -/
def run (files : Files) (args lines : List String) : Output :=
  match ofArgs files args with
  | .error output => output
  | .ok x => ⟨0, unlines (greeting x) ++ transcript x lines, ""⟩

end Preview

end Colloquy
