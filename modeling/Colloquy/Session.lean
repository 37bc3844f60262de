import Colloquy.Background
import Colloquy.Library
import Colloquy.Player

/-!
# Session — one main conversation and any number in the background

A `Session` owns the library, the variables, the player of the main conversation and the background
conversations, each of which has an id that no other ever had. What is started goes to the main text
box or to the background as its script says. The requests that performers leave are carried out
after each operation, oldest first (`Session.route`).
-/

namespace Colloquy

/-- A playback. -/
structure Session where
  library : Library
  setting : Setting
  player : Player
  background : List Background
  /-- The id of the next background conversation. -/
  nextId : Nat
  stage : Stage

/-- What comes of asking something of a session. -/
structure Answer (α : Type) where
  result : Except PlaybackError α
  session : Session

namespace Session

/-- A session in which nothing has been performed. -/
def new (library : Library) (setting : Setting) (vars : Variables) : Session :=
  ⟨library, setting, .idle, [], 0, .ofVariables vars⟩

/-- The session with its player and its stage changed. -/
def withPlayer (x : Session) (played : Player × Stage) : Session :=
  { x with player := played.1, stage := played.2 }

/-- The answer of the player. -/
def ofTurn (x : Session) (t : Turn) : Answer Unit := ⟨t.result, x.withPlayer (t.player, t.stage)⟩

/-! ## Starting, before requests are carried out -/

/-- Starts a conversation on the main text box. -/
def startMain (x : Session) (name : String) (script : Conversation) : Answer Channel :=
  let turn := x.player.start x.setting name script x.stage
  ⟨turn.result.map fun _ => .main, x.withPlayer (turn.player, turn.stage)⟩

/-- Starts a conversation in the background. Its id is used up even if it does not start. -/
def startBackground (x : Session) (name : String) (script : Conversation) : Answer Channel :=
  let id := x.nextId
  let (result, s) := Background.start x.setting id name script x.stage
  let x := { x with nextId := id + 1, stage := s }
  match result with
  | .error e => ⟨.error e, x⟩
  | .ok b =>
    ⟨.ok b.channel, if b.isFinished then x else { x with background := x.background ++ [b] }⟩

/-- Starts the conversation of a name where its script says. -/
def launch (x : Session) (name : String) : Answer Channel :=
  let found := x.library.retrieve name
  let x := { x with stage := x.stage.annotate found.notes }
  match found.value with
  | none => ⟨.error (.conversationNotFound name), x⟩
  | some script =>
    if script.background then x.startBackground name script else x.startMain name script

/-! ## Requests -/

/-- Ends some background conversations. -/
def finishAll : List Background → Stage → Stage
  | [], s => s
  | b :: bs, s => finishAll bs (b.finish s).2

/-- Ends the main conversation. -/
def stop (x : Session) : Session := x.withPlayer (x.player.stop x.stage)

/-- Ends every background conversation. -/
def closeBackground (x : Session) : Session :=
  { x with background := [], stage := finishAll x.background x.stage }

/-- Carries out a request. -/
def carryOut (x : Session) : Request → Session
  | .closeConversation => x.stop
  | .changeTheme theme => x.withPlayer (x.player.changeTheme theme x.stage)
  | .startBackgroundConversation name => (x.launch name).session
  | .closeBackgroundConversations => x.closeBackground

/-- How many requests are carried out after one operation, in case each brings forth another. -/
def requestLimit : Nat := 64

/-- Carries out the requests that were left, oldest first, up to a number of them. -/
def routeWithin : Nat → Session → Session
  | limit, x =>
    match x.stage.requests, limit with
    | [], _ => x
    | _ :: _, 0 =>
      { x with
        stage := { x.stage with requests := [] }.annotate
          [.warning "too many chained requests, dropping the rest"] }
    | r :: rest, limit + 1 =>
      routeWithin limit ({ x with stage := { x.stage with requests := rest } }.carryOut r)

/-- Carries out the requests that were left. -/
def route (x : Session) : Session := x.routeWithin requestLimit

/-! ## What a session is asked for -/

/-- The answer once requests have been carried out. -/
def settle {α : Type} (a : Answer α) : Answer α := { a with session := a.session.route }

/-- Adds the conversation that a text writes to the library. -/
def load (x : Session) (name text : String) : Except LoadError Unit × Session :=
  let loaded := x.library.load name text
  let x := { x with stage := x.stage.annotate loaded.notes }
  match loaded.result with
  | .ok library => (.ok (), { x with library })
  | .error e => (.error e, x)

/-- Starts the conversation of a name. -/
def start (x : Session) (name : String) : Answer Channel := settle (x.launch name)

/-- Goes on with the main conversation. -/
def next (x : Session) : Answer Unit := settle (x.ofTurn (x.player.next x.setting x.stage))

/-- Selects a choice of the main conversation. -/
def select (x : Session) (index : Nat) : Answer Unit :=
  settle (x.ofTurn (x.player.select x.setting index x.stage))

/-- Lets time pass for some background conversations. Those that are over are left out. -/
def tickAll (setting : Setting) (dt : Single) : List Background → Stage →
    List Background × Stage
  | [], s => ([], s)
  | b :: bs, s =>
    let (b, s) := b.tick setting dt s
    let (bs, s) := tickAll setting dt bs s
    (if b.isFinished then bs else b :: bs, s)

/-- Lets time pass, for the main conversation first. -/
def tick (x : Session) (dt : Single) : Session :=
  let (player, s) := x.player.tick x.setting dt x.stage
  let (background, s) := tickAll x.setting dt x.background s
  { x with player, background, stage := s }.route

/-- Changes the variables. -/
def updateVariables {α : Type} (x : Session) (f : Variables → Variables.Update α) : α × Session :=
  let u := f x.stage.vars
  (u.result, { x with stage := x.stage.update u })

/-- Takes the events reported since the last time. -/
def drain (x : Session) : List Event × Session :=
  (x.stage.events, { x with stage := { x.stage with events := [] } })

end Session

end Colloquy
