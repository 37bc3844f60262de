import Colloquy.Proofs.Playback.Bare
import Colloquy.Proofs.Playback.Coherence

/-!
# Proofs/Playback/Slate — a player whose fields stand side by side

A `Player` has a performance or none, so that nothing can be left of one that is over. A `Slate`
writes the same things side by side, and wipes off only some of them: a conversation that ends
leaves behind which dialogue it was in, who spoke last and whether anyone did (`Slate.stop`), and
one that starts leaves the rest as it finds it (`Slate.start`). The two together are enough. A slate
at rest shows a player that is idle, whatever is left on it, and a slate that is in use shows its
performance (`Slate.Shows`); whatever both are asked for, they do the same, and the slate shows the
player again (`Slate.answers_respond`).

While something is done, a performance that goes on elsewhere is known to the slate alone: the
player still has the one it set out from, under the same name. `Slate.Busy` so names the performance
and its phase.
-/

namespace Colloquy

/-- What comes of asking something of a performer. -/
structure Reply (σ : Type) where
  result : Except PlaybackError Unit
  performer : σ
  stage : Stage

/-- The reply of a player. -/
def Player.respond (setting : Setting) (c : PlayerCall) (p : Player) (s : Stage) : Reply Player :=
  let ofTurn (t : Turn) : Reply Player := ⟨t.result, t.player, t.stage⟩
  let ofPair (x : Player × Stage) : Reply Player := ⟨.ok (), x.1, x.2⟩
  match c with
  | .start name script => ofTurn (p.start setting name script s)
  | .next => ofTurn (p.next setting s)
  | .select index => ofTurn (p.select setting index s)
  | .stop => ofPair (p.stop s)
  | .theme name => ofPair (p.changeTheme name s)
  | .tick dt => ofPair (p.tick setting dt s)

/-! ## The slate -/

/-- A player whose fields stand side by side. -/
structure Slate where
  activity : Activity
  name : String
  script? : Option Conversation
  dialogue? : Option Dialogue
  sentenceIndex? : Option Nat
  lastSpeaker : Option String
  theme : Option String
  reveal? : Option Reveal
  text : String
  opening : Bool
deriving DecidableEq

namespace Slate

/-- A slate on which nothing has been written. -/
def blank : Slate := ⟨.idle, "", none, none, none, none, none, none, "", false⟩

/-- How many sentences of the dialogue have been shown. -/
def said (c : Slate) : Nat :=
  match c.sentenceIndex? with
  | some i => i + 1
  | none => 0

/-- The slate at the start of a dialogue. -/
def move (c : Slate) (d : Dialogue) : Slate :=
  { c with dialogue? := some d, sentenceIndex? := none }

/-! ### Themes, requests and actions -/

/-- The theme changes. -/
def changeTheme (c : Slate) (theme : String) (s : Stage) : Slate × Stage :=
  ({ c with theme := some theme }, (s.observe [.theme theme]).report (.themeChanged theme))

/-- The conversation ends, if there is one. Not all that was written is wiped off. -/
def stop (c : Slate) (s : Stage) : Slate × Stage :=
  if c.activity = .idle then (c, s)
  else
    ({ c with
        activity := .idle
        name := ""
        script? := none
        sentenceIndex? := none
        reveal? := none
        text := "" },
      (s.observe [.close .main]).report (.conversationEnded c.name))

/-- Answers a request. -/
def answer (c : Slate) (r : Request) (s : Stage) : Slate × Stage :=
  match r with
  | .closeConversation => c.stop s
  | .changeTheme theme => c.changeTheme theme s
  | .startBackgroundConversation _ | .closeBackgroundConversations => (c, s.leave r)

/-- Fires declared actions one after the other, as long as the conversation goes on. -/
def fireAll (setting : Setting) (declared : List Action) : List String → Slate → Stage →
    Slate × Stage
  | [], c, s => (c, s)
  | name :: rest, c, s =>
    let (request?, s) := s.fire setting declared name .nothing
    match request? with
    | none => fireAll setting declared rest c s
    | some r =>
      let (c, s) := c.answer r s
      if c.activity = .idle then (c, s) else fireAll setting declared rest c s

/-! ### Sentences and dialogues -/

/-- Puts on the theme of a dialogue, unless it is on already. -/
def dress (c : Slate) (d : Dialogue) (s : Stage) : Slate × Stage :=
  match d.theme? with
  | some theme => if c.theme = some theme then (c, s) else c.changeTheme theme s
  | none => (c, s)

/-- Says the next sentence. -/
def say (setting : Setting) (d : Dialogue) (raw : String) (c : Slate) (s : Stage) :
    Slate × Stage :=
  let t := setting.config.timings
  let sameSpeaker := !c.opening && c.lastSpeaker == d.speaker?
  let (c, s) := { c with sentenceIndex? := some c.said, lastSpeaker := d.speaker? }.dress d s
  let (sentence, s) := s.read raw
  let s := s.observe [.sentence .main sentence.text d.speaker? sameSpeaker d.autoProceed]
  let s := if sameSpeaker then s else Player.introduce setting d s
  let delay := if c.opening then t.firstSentenceDelay else 0
  ({ c with
      opening := false
      text := sentence.text
      reveal? := some (Reveal.ofSentence sentence t.charDelay delay) }, s)

/-- Offers the choices. -/
def offer (d : Dialogue) (c : Slate) (s : Stage) : Slate × Stage :=
  ({ c with activity := .choosing }, s.observe [.options (d.choices.map (·.text))])

/-- Fires the actions that the dialogue ends with, and ends. -/
def finish (setting : Setting) (script : Conversation) (d : Dialogue) (c : Slate) (s : Stage) :
    Slate × Stage :=
  let (c, s) := fireAll setting script.actions d.onFinished c s
  c.stop s

/-- Ends where there is no way on. -/
def fail (note : Note) (c : Slate) (s : Stage) : Slate × Stage := c.stop (s.annotate [note])

/-- Goes on in a dialogue that is not passed through. -/
def stay (setting : Setting) (script : Conversation) (d : Dialogue) (c : Slate) (s : Stage) :
    Slate × Stage :=
  match d.outlook c.said with
  | .sentence raw => say setting d raw c s
  | .choices => offer d c s
  | .link _ | .ending => finish setting script d c s

/-- Enters a dialogue, and goes from there from link to link, up to a number of them. -/
def enterWithin (setting : Setting) (script : Conversation) (links : Nat) (d : Dialogue)
    (c : Slate) (s : Stage) : Slate × Stage :=
  match d.outlook 0 with
  | .link id =>
    match script.dialogue? id with
    | none => fail (.failure (PlaybackError.dialogueNotFound id).message) (c.move d) s
    | some e =>
      match links with
      | 0 => fail circleNote (c.move d) s
      | links + 1 => enterWithin setting script links e (c.move d) s
  | _ => stay setting script d (c.move d) s

/-- Enters a dialogue. -/
def enter (setting : Setting) (script : Conversation) (d : Dialogue) (c : Slate) (s : Stage) :
    Slate × Stage := enterWithin setting script script.dialogues.length d c s

/-- Goes to the dialogue of an id. -/
def goTo (setting : Setting) (script : Conversation) (id : Int32) (c : Slate) (s : Stage) :
    Reply Slate :=
  match script.dialogue? id with
  | some d =>
    let (c, s) := enter setting script d c s
    ⟨.ok (), c, s⟩
  | none =>
    let e := PlaybackError.dialogueNotFound id
    let (c, s) := fail (.failure e.message) c s
    ⟨.error e, c, s⟩

/-- Goes on after a sentence. -/
def advance (setting : Setting) (c : Slate) (s : Stage) : Slate × Stage :=
  match c.script?, c.dialogue? with
  | some script, some d =>
    match d.outlook c.said with
    | .link id =>
      let r := goTo setting script id c s
      (r.performer, r.stage)
    | _ => stay setting script d c s
  | _, _ => (c, s)

/-! ### What a slate is asked for -/

/-- Nothing comes of it but an error, and a note. -/
def refuse (c : Slate) (e : PlaybackError) (note : Note) (s : Stage) : Reply Slate :=
  ⟨.error e, c, s.annotate [note]⟩

/-- Starts a conversation. What is not written over stays. -/
def start (setting : Setting) (name : String) (script : Conversation) (c : Slate) (s : Stage) :
    Reply Slate :=
  if c.activity = .idle then
    match s.startingPoint script with
    | (none, s) =>
      let e := PlaybackError.noStartingPoint name
      c.refuse e (.failure e.message) s
    | (some d, s) =>
      let c := { c with
        activity := .active
        name
        script? := some script
        dialogue? := some d
        sentenceIndex? := none
        lastSpeaker := none
        opening := true }
      let (c, s) := enter setting script d c (s.report (.conversationStarted name))
      ⟨.ok (), c, s⟩
  else
    c.refuse .alreadyActive (.warning ("cannot start: " ++ PlaybackError.alreadyActive.message)) s

/-- Goes on after a sentence that has been revealed. -/
def next (setting : Setting) (c : Slate) (s : Stage) : Reply Slate :=
  let ignore (e : PlaybackError) : Reply Slate :=
    c.refuse e (.warning ("next() ignored: " ++ e.message)) s
  match c.activity with
  | .idle => ⟨.ok (), c, s⟩
  | .choosing => ignore .awaitingOption
  | .active =>
    if c.reveal?.isSome then ignore .stillRevealing
    else
      let (c, s) := advance setting c s
      ⟨.ok (), c, s⟩

/-- Makes a choice: its actions are fired, and the conversation goes where it leads, or ends. -/
def choose (setting : Setting) (script : Conversation) (choice : Choice) (c : Slate) (s : Stage) :
    Reply Slate :=
  let (c, s) := fireAll setting script.actions choice.actions { c with activity := .active } s
  if c.activity = .idle then ⟨.ok (), c, s⟩
  else
    match choice.next? with
    | some id => goTo setting script id c s
    | none =>
      let (c, s) := c.stop s
      ⟨.ok (), c, s⟩

/-- Selects one of the choices that are offered. -/
def select (setting : Setting) (index : Nat) (c : Slate) (s : Stage) : Reply Slate :=
  match c.activity, c.script?, c.dialogue? with
  | .choosing, some script, some d =>
    match d.choices[index]? with
    | some choice => choose setting script choice c s
    | none =>
      let e := PlaybackError.optionOutOfRange index d.choices.length
      c.refuse e (.warning e.message) s
  | .active, _, _ =>
    c.refuse .noOptions
      (.warning ("cannot select option " ++ toString index ++ ": " ++
        PlaybackError.noOptions.message)) s
  | _, _, _ => ⟨.ok (), c, s⟩

/-! ### Time -/

/-- Does what is left to do for a command. -/
def followUp (c : Slate) (s : Stage) : FollowUp → Slate × Stage
  | .done => (c, s)
  | .request r => c.answer r s
  | .portrait image? => (c, s.observe [.portrait .main image?])
  | .theme theme => c.changeTheme theme s

/-- What happens while a sentence is revealed. -/
def handler (setting : Setting) (declared : List Action) : Handler (Slate × Stage) where
  onCharacter := fun (c, s) => (c, s.observe [.reveal .main])
  onTag := fun command k (c, s) =>
    let deed := s.carryOut setting declared k command
    let (c, s) := c.followUp deed.stage deed.followUp
    (if c.activity = .idle then none else some deed.clock, c, s)

/-- Time passes. -/
def tick (setting : Setting) (dt : Single) (c : Slate) (s : Stage) : Slate × Stage :=
  match c.reveal?, c.script? with
  | some r, some script =>
    match (r.elapse dt).run (handler setting script.actions) (c, s) with
    | (.waiting r, c, s) => ({ c with reveal? := some r }, s)
    | (.broken, c, s) => (c, s)
    | (.finished, c, s) =>
      let c := { c with reveal? := none }
      let s := s.observe [.revealed .main]
      if c.dialogue?.any (·.autoProceed) then advance setting c s else (c, s)
  | some r, none => ({ c with reveal? := some (r.elapse dt) }, s)
  | none, _ => (c, s)

/-- The reply of a slate. -/
def respond (setting : Setting) (call : PlayerCall) (c : Slate) (s : Stage) : Reply Slate :=
  let ofPair (x : Slate × Stage) : Reply Slate := ⟨.ok (), x.1, x.2⟩
  match call with
  | .start name script => c.start setting name script s
  | .next => c.next setting s
  | .select index => c.select setting index s
  | .stop => ofPair (c.stop s)
  | .theme name => ofPair (c.changeTheme name s)
  | .tick dt => ofPair (c.tick setting dt s)

/-! ## What a slate shows -/

/-- The slate is at rest. Where it was, who spoke last and whether anyone did may be left on it. -/
structure Rests (c : Slate) : Prop where
  activity : c.activity = .idle
  name : c.name = ""
  script : c.script? = none
  sentenceIndex : c.sentenceIndex? = none
  reveal : c.reveal? = none
  text : c.text = ""

/-- A performance is written on the slate, in a phase that may be another than its own. -/
structure Holds (c : Slate) (q : Performance) (phase : Phase) : Prop where
  activity : c.activity = if phase = .choosing then .choosing else .active
  name : c.name = q.name
  script : c.script? = some q.script
  dialogue : c.dialogue? = some q.dialogue
  sentenceIndex : c.sentenceIndex? = q.sentenceIndex?
  lastSpeaker : c.lastSpeaker = q.lastSpeaker
  reveal : c.reveal? = ({ q with phase } : Performance).reveal?
  text : c.text = q.sentence.text
  opening : c.opening = q.opening

/-- Slate and player are idle, in the same theme. -/
structure Idle (c : Slate) (p : Player) : Prop where
  theme : c.theme = p.theme
  rests : c.Rests
  playing : p.playing = none

/-- The slate is in the midst of a performance, and the player performs something of that name. -/
structure Busy (q : Performance) (phase : Phase) (c : Slate) (p : Player) : Prop where
  theme : c.theme = p.theme
  holds : c.Holds q phase
  playing : ∃ r, p.playing = some r ∧ r.name = q.name

/-- The performance goes on, or has come to its end. -/
def Alike (q : Performance) (phase : Phase) (c : Slate) (p : Player) : Prop :=
  Idle c p ∨ Busy q phase c p

/-- The slate shows the player: what is on it is what the player performs. -/
def Shows (c : Slate) (p : Player) : Prop :=
  Idle c p ∨ ∃ q, p.playing = some q ∧ Busy q q.phase c p

/-- Slate and player have done the same on one stage, and are related. -/
def Together (R : Slate → Player → Prop) (x : Slate × Stage) (y : Player × Stage) : Prop :=
  R x.1 y.1 ∧ x.2 = y.2

/-- A slate replies as a player does, and shows it then. -/
def Answers (r : Reply Slate) (t : Reply Player) : Prop :=
  r.result = t.result ∧ Together Shows (r.performer, r.stage) (t.performer, t.stage)

theorem Together.mono {R R' : Slate → Player → Prop} {x : Slate × Stage} {y : Player × Stage}
    (h : Together R x y) (hR : ∀ {c p}, R c p → R' c p) : Together R' x y := ⟨hR h.1, h.2⟩

theorem Holds.activity_ne {c : Slate} {q : Performance} {phase : Phase} (h : c.Holds q phase) :
    c.activity ≠ .idle := by
  rw [h.activity]
  split <;> decide

variable {setting : Setting} {q : Performance} {phase : Phase} {c : Slate} {p : Player}

/-- The slate moves on to a dialogue before the player does. -/
theorem Busy.move (h : Busy q phase c p) (d : Dialogue) :
    Busy (q.move d) phase (c.move d) p where
  theme := h.theme
  holds := { h.holds with dialogue := rfl, sentenceIndex := rfl }
  playing := h.playing

theorem Holds.said_eq (h : c.Holds q phase) : c.said = q.said := by
  rw [said, h.sentenceIndex]
  rfl

theorem Busy.shows (h : Busy q q.phase c p) (hp : p.playing = some q) : Shows c p :=
  .inr ⟨q, hp, h⟩

/-- The slate tells whether a conversation is held. -/
theorem Alike.idle_or_busy (h : Alike q phase c p) :
    (c.activity = .idle ∧ p.playing.isSome = false ∧ Idle c p) ∨
      (c.activity ≠ .idle ∧ p.playing.isSome = true ∧ Busy q phase c p) := by
  obtain h | h := h
  · exact .inl ⟨h.rests.activity, by rw [h.playing]; rfl, h⟩
  · obtain ⟨r, hr, -⟩ := h.playing
    exact .inr ⟨h.holds.activity_ne, by rw [hr]; rfl, h⟩

/-! ## Both do the same -/

theorem Idle.changeTheme (h : Idle c p) (theme : String) (s : Stage) :
    Together Idle (c.changeTheme theme s) (p.changeTheme theme s) :=
  ⟨⟨rfl, { h.rests with }, h.playing⟩, rfl⟩

/-- A performance is written on the slate whatever the theme is. -/
theorem Busy.changeTheme (h : Busy q phase c p) (theme : String) (s : Stage) :
    Together (Busy q phase) (c.changeTheme theme s) (p.changeTheme theme s) :=
  ⟨⟨rfl, { h.holds with }, h.playing⟩, rfl⟩

theorem together_changeTheme (h : Alike q phase c p) (theme : String) (s : Stage) :
    Together (Alike q phase) (c.changeTheme theme s) (p.changeTheme theme s) := by
  obtain h | h := h
  · exact (h.changeTheme theme s).mono .inl
  · exact (h.changeTheme theme s).mono .inr

theorem Idle.stop (h : Idle c p) (s : Stage) : Together Idle (c.stop s) (p.stop s) := by
  rw [Slate.stop, if_pos h.rests.activity, Player.stop_of_idle h.playing]
  exact ⟨h, rfl⟩

/-- **A conversation that ends leaves the slate at rest.** -/
theorem Busy.stop (h : Busy q phase c p) (s : Stage) : Together Idle (c.stop s) (p.stop s) := by
  obtain ⟨r, hr, hname⟩ := h.playing
  rw [Slate.stop, if_neg h.holds.activity_ne, Player.stop_of_playing hr, hname, h.holds.name]
  exact ⟨⟨h.theme, ⟨rfl, rfl, rfl, rfl, rfl, rfl⟩, rfl⟩, rfl⟩

theorem together_stop (h : Alike q phase c p) (s : Stage) :
    Together Idle (c.stop s) (p.stop s) := by
  obtain h | h := h
  · exact h.stop s
  · exact h.stop s

theorem together_answer (h : Alike q phase c p) (r : Request) (s : Stage) :
    Together (Alike q phase) (c.answer r s) (p.answer r s) := by
  cases r with
  | closeConversation => exact (together_stop h s).mono .inl
  | changeTheme theme => exact together_changeTheme h theme s
  | startBackgroundConversation name => exact ⟨h, rfl⟩
  | closeBackgroundConversations => exact ⟨h, rfl⟩

theorem together_fireAll (setting : Setting) (declared : List Action) (names : List String) :
    ∀ {c : Slate} {p : Player} (s : Stage), Alike q phase c p →
      Together (Alike q phase) (c.fireAll setting declared names s)
        (p.fireAll setting declared names s) := by
  induction names with
  | nil => exact fun s h => ⟨h, rfl⟩
  | cons name rest ih =>
    intro c p s h
    unfold fireAll Player.fireAll
    obtain ⟨_ | r, s'⟩ := s.fire setting declared name .nothing
    · exact ih s' h
    · obtain ⟨h, hs⟩ := together_answer h r s'
      dsimp only
      rw [hs]
      obtain ⟨hc, hp, -⟩ | ⟨hc, hp, -⟩ := h.idle_or_busy
      · rw [if_pos hc, hp]
        exact ⟨h, rfl⟩
      · rw [if_neg hc, hp]
        exact ih _ h

theorem together_dress (h : Busy q phase c p) (d : Dialogue) (s : Stage) :
    Together (Busy q phase) (c.dress d s) (p.dress d s) := by
  unfold dress Player.dress
  cases d.theme? with
  | none => exact ⟨h, rfl⟩
  | some theme =>
    dsimp only
    rw [h.theme]
    split
    · exact ⟨h, rfl⟩
    · exact h.changeTheme theme s

theorem together_say (h : Busy q .settled c p) (raw : String) (s : Stage) :
    Together Shows (c.say setting q.dialogue raw s) (p.say setting q raw s) := by
  let q' : Performance :=
    { q with sentenceIndex? := some q.said, lastSpeaker := q.dialogue.speaker? }
  have hnext : Busy q' .settled
      { c with sentenceIndex? := some c.said, lastSpeaker := q.dialogue.speaker? } p :=
    { theme := h.theme
      holds := { h.holds with
        sentenceIndex := congrArg some h.holds.said_eq
        lastSpeaker := rfl }
      playing := h.playing }
  have hsame : (!c.opening && c.lastSpeaker == q.dialogue.speaker?) =
      (!q.opening && q.lastSpeaker == q.dialogue.speaker?) := by
    rw [h.holds.opening, h.holds.lastSpeaker]
  obtain ⟨hdressed, hs⟩ := together_dress hnext q.dialogue s
  unfold say Player.say
  dsimp only
  rw [hs, hsame, hdressed.holds.opening]
  exact ⟨.inr ⟨_, rfl, hdressed.theme,
    { hdressed.holds with text := rfl, reveal := rfl, opening := rfl }, _, rfl, rfl⟩, rfl⟩

theorem together_offer (h : Busy q .settled c p) (s : Stage) :
    Together Shows (c.offer q.dialogue s) (p.offer q s) :=
  ⟨.inr ⟨_, rfl, h.theme, { h.holds with activity := rfl }, _, rfl, rfl⟩, rfl⟩

theorem together_finish (h : Busy q .settled c p) (s : Stage) :
    Together Shows (c.finish setting q.script q.dialogue s) (p.finish setting q s) := by
  obtain ⟨hfired, hs⟩ :=
    together_fireAll setting q.script.actions q.dialogue.onFinished s (.inr h)
  unfold finish Player.finish
  dsimp only
  rw [hs]
  exact (together_stop hfired _).mono .inl

theorem together_fail (h : Busy q .settled c p) (note : Note) (s : Stage) :
    Together Shows (c.fail note s) (p.fail note s) :=
  (h.stop _).mono .inl

theorem together_stay (h : Busy q .settled c p) (s : Stage) :
    Together Shows (c.stay setting q.script q.dialogue s) (p.stay setting q s) := by
  unfold stay Player.stay
  rw [h.holds.said_eq]
  cases q.dialogue.outlook q.said with
  | sentence raw => exact together_say h raw s
  | choices => exact together_offer h s
  | link id => exact together_finish h s
  | ending => exact together_finish h s

/-- By induction on the links that are left. The slate is in each dialogue that is passed, the
player only in the one where the trail ends. -/
theorem together_enterWithin (links : Nat) :
    ∀ {q : Performance} {c : Slate} (d : Dialogue) (s : Stage), Busy q .settled c p →
      Together Shows (c.enterWithin setting q.script links d s)
        (match q.script.trailWithin? (·.outlook 0) links d with
          | some ⟨_, .at e⟩ => p.stay setting (q.move e) s
          | some ⟨_, .missing id⟩ =>
            p.fail (.failure (PlaybackError.dialogueNotFound id).message) s
          | none => p.fail circleNote s) := by
  induction links with
  | zero =>
    intro q c d s h
    unfold enterWithin Conversation.trailWithin?
    cases d.outlook 0 with
    | link id =>
      dsimp only
      cases q.script.dialogue? id with
      | none => exact together_fail (h.move d) _ s
      | some e => exact together_fail (h.move d) _ s
    | _ => exact together_stay (h.move d) s
  | succ links ih =>
    intro q c d s h
    unfold enterWithin Conversation.trailWithin?
    cases d.outlook 0 with
    | link id =>
      dsimp only
      cases q.script.dialogue? id with
      | none => exact together_fail (h.move d) _ s
      | some e =>
        have hmoved := ih e s (h.move d)
        dsimp only [Performance.move] at hmoved ⊢
        generalize q.script.trailWithin? (·.outlook 0) links e = trail? at hmoved ⊢
        rcases trail? with _ | ⟨passed, _ | _⟩ <;> exact hmoved
    | _ => exact together_stay (h.move d) s

theorem together_enter (h : Busy q .settled c p) (d : Dialogue) (s : Stage) :
    Together Shows (c.enter setting q.script d s) (p.enter setting q d s) :=
  together_enterWithin _ d s h

theorem answers_goTo (h : Busy q .settled c p) (id : Int32) (s : Stage) :
    Answers (c.goTo setting q.script id s)
      ⟨(p.goTo setting q id s).result, (p.goTo setting q id s).player,
        (p.goTo setting q id s).stage⟩ := by
  unfold goTo Player.goTo
  cases q.script.dialogue? id with
  | none => exact ⟨rfl, together_fail h _ s⟩
  | some d => exact ⟨rfl, together_enter h d s⟩

theorem together_advance (h : Busy q .settled c p) (s : Stage) :
    Together Shows (c.advance setting s) (p.advance setting q s) := by
  unfold advance Player.advance
  rw [h.holds.script, h.holds.dialogue]
  dsimp only
  rw [h.holds.said_eq]
  cases q.dialogue.outlook q.said with
  | link id => exact (answers_goTo h id s).2
  | _ => exact together_stay h s

/-! ## Both reply the same -/

/-- **What is left on the slate when a conversation starts is written over**, or was wiped off when
the last one ended. -/
theorem answers_start (h : Shows c p) (name : String) (script : Conversation) (s : Stage) :
    Answers (c.start setting name script s) (p.respond setting (.start name script) s) := by
  unfold start Player.respond Player.start
  obtain h' | ⟨q, hq, h'⟩ := h
  · rw [if_pos h'.rests.activity, h'.playing]
    dsimp only [Option.isSome_none]
    rw [if_neg Bool.false_ne_true]
    obtain ⟨_ | d, s'⟩ := s.startingPoint script
    · exact ⟨rfl, .inl h', rfl⟩
    · refine ⟨rfl, together_enter (q := { name, script, dialogue := d }) ?_ d _⟩
      exact ⟨h'.theme, ⟨rfl, rfl, rfl, rfl, rfl, rfl, h'.rests.reveal, h'.rests.text, rfl⟩,
        _, rfl, rfl⟩
  · rw [if_neg h'.holds.activity_ne, hq]
    exact ⟨rfl, h'.shows hq, rfl⟩

theorem answers_next (h : Shows c p) (s : Stage) :
    Answers (c.next setting s) (p.respond setting .next s) := by
  unfold next Player.respond Player.next
  obtain h' | ⟨q, hq, h'⟩ := h
  · rw [h'.rests.activity, h'.playing]
    exact ⟨rfl, .inl h', rfl⟩
  · have hshows := h'.shows hq
    rw [h'.holds.activity, h'.holds.reveal, hq]
    cases hp : q.phase with
    | revealing r =>
      simp only [hp, reduceCtorEq, if_false, Performance.reveal?]
      exact ⟨rfl, hshows, rfl⟩
    | settled =>
      rw [hp] at h'
      simp only [hp, reduceCtorEq, if_false, Performance.reveal?]
      exact ⟨rfl, together_advance h' s⟩
    | choosing =>
      simp only [hp, if_true]
      exact ⟨rfl, hshows, rfl⟩

theorem answers_choose (h : Busy q .choosing c p) (choice : Choice) (s : Stage) :
    Answers (c.choose setting q.script choice s)
      ⟨(p.choose setting q choice s).result, (p.choose setting q choice s).player,
        (p.choose setting q choice s).stage⟩ := by
  have hactive : Busy q .settled { c with activity := .active } p :=
    { theme := h.theme, holds := { h.holds with activity := rfl }, playing := h.playing }
  obtain ⟨hfired, hs⟩ :=
    together_fireAll setting q.script.actions choice.actions s (.inr hactive)
  unfold choose Player.choose
  dsimp only
  rw [hs]
  obtain ⟨hc, -, hidle⟩ | ⟨hc, hp, hbusy⟩ := hfired.idle_or_busy
  · rw [if_pos hc, hidle.playing, Player.stop_of_idle hidle.playing]
    exact ⟨rfl, .inl hidle, rfl⟩
  · obtain ⟨r, hr⟩ := Option.isSome_iff_exists.1 hp
    rw [if_neg hc, hr]
    cases choice.next? with
    | none => exact ⟨rfl, (hbusy.stop _).mono .inl⟩
    | some id => exact answers_goTo hbusy id _

theorem answers_select (h : Shows c p) (index : Nat) (s : Stage) :
    Answers (c.select setting index s) (p.respond setting (.select index) s) := by
  unfold select Player.respond Player.select
  obtain h' | ⟨q, hq, h'⟩ := h
  · rw [h'.rests.activity, h'.playing]
    exact ⟨rfl, .inl h', rfl⟩
  · have hshows := h'.shows hq
    rw [h'.holds.activity, h'.holds.script, h'.holds.dialogue, hq]
    cases hp : q.phase with
    | choosing =>
      rw [hp] at h'
      simp only [hp, if_true]
      cases q.dialogue.choices[index]? with
      | none => exact ⟨rfl, hshows, rfl⟩
      | some choice => exact answers_choose h' choice s
    | _ =>
      simp only [hp, reduceCtorEq, if_false]
      exact ⟨rfl, hshows, rfl⟩

/-! ## Time -/

theorem together_followUp (h : Alike q phase c p) (s : Stage) (f : FollowUp) :
    Together (Alike q phase) (c.followUp s f) (p.followUp s f) := by
  cases f with
  | done => exact ⟨h, rfl⟩
  | request r => exact together_answer h r s
  | portrait image? => exact ⟨h, rfl⟩
  | theme theme => exact together_changeTheme h theme s

theorem lift_run (setting : Setting) (declared : List Action) (r : Reveal) (s : Stage)
    (h : Busy q phase c p) :
    Progress.Lift (Together Idle) (Together (Busy q phase))
      (r.run (handler setting declared) (c, s))
      (r.run (Player.handler setting declared) (p, s)) := by
  refine Reveal.runBeats_lift _ _ ?_ ?_ _ _ _ ⟨h, rfl⟩
  · rintro ⟨c, s⟩ ⟨p, _⟩ ⟨h, rfl : s = _⟩
    exact ⟨h, rfl⟩
  rintro command k ⟨c, s⟩ ⟨p, _⟩ ⟨h, rfl : s = _⟩
  unfold handler Player.handler
  dsimp only
  obtain ⟨hafter, hs⟩ := together_followUp (.inr h)
    (s.carryOut setting declared k command).stage (s.carryOut setting declared k command).followUp
  obtain ⟨hc, hp, hidle⟩ | ⟨hc, hp, hbusy⟩ := hafter.idle_or_busy
  · exact .inl ⟨if_pos hc, if_neg (ne_true_of_eq_false hp), hidle, hs⟩
  · exact .inr ⟨_, if_neg hc, if_pos hp, hbusy, hs⟩

theorem together_tick (h : Shows c p) (dt : Single) (s : Stage) :
    Together Shows (c.tick setting dt s) (p.tick setting dt s) := by
  unfold tick Player.tick
  obtain h' | ⟨q, hq, h'⟩ := h
  · rw [h'.rests.reveal, h'.playing]
    exact ⟨.inl h', rfl⟩
  · have hshows := h'.shows hq
    rw [h'.holds.reveal, h'.holds.script, hq]
    -- only what is being revealed takes notice of time
    cases hp : q.phase with
    | revealing r =>
      rw [hp] at h'
      have hrun := lift_run setting q.script.actions (r.elapse dt) s h'
      simp only [Performance.reveal?, hp, Option.bind_some, Option.map_some]
      generalize (r.elapse dt).run (handler setting q.script.actions) (c, s) = x at hrun ⊢
      generalize (r.elapse dt).run (Player.handler setting q.script.actions) (p, s) = y at hrun ⊢
      obtain ⟨g, c', s'⟩ := x
      obtain ⟨_, p', _⟩ := y
      obtain ⟨rfl : g = _, hafter⟩ := hrun
      cases g with
      | waiting r' =>
        obtain ⟨hbusy, rfl : s' = _⟩ := hafter
        exact ⟨.inr ⟨_, rfl, hbusy.theme, { hbusy.holds with reveal := rfl }, _, rfl, rfl⟩, rfl⟩
      | broken =>
        obtain ⟨hidle, rfl : s' = _⟩ := hafter
        exact ⟨.inl hidle, rfl⟩
      | finished =>
        obtain ⟨hbusy, rfl : s' = _⟩ := hafter
        have hsettled : Busy { q with phase := .settled } .settled { c' with reveal? := none }
            { p' with playing := some { q with phase := .settled } } :=
          ⟨hbusy.theme, { hbusy.holds with reveal := rfl }, _, rfl, rfl⟩
        have hauto : c'.dialogue?.any (·.autoProceed) = q.dialogue.autoProceed := by
          rw [hbusy.holds.dialogue, Option.any_some]
        dsimp only
        rw [hauto]
        split
        · exact together_advance hsettled _
        · exact ⟨hsettled.shows rfl, rfl⟩
    | _ =>
      simp only [Performance.reveal?, hp, Option.bind_some, Option.map_none]
      exact ⟨hshows, rfl⟩

/-! ## Calls -/

/-- **Whatever both are asked for, they reply the same**, and the slate shows the player then. -/
theorem answers_respond (h : Shows c p) (call : PlayerCall) (s : Stage) :
    Answers (c.respond setting call s) (p.respond setting call s) := by
  cases call with
  | start name script => exact answers_start h name script s
  | next => exact answers_next h s
  | select index => exact answers_select h index s
  | stop =>
    refine ⟨rfl, ?_⟩
    obtain h | ⟨q, -, h⟩ := h
    · exact (h.stop s).mono .inl
    · exact (h.stop s).mono .inl
  | theme name =>
    refine ⟨rfl, ?_⟩
    obtain h | ⟨q, hq, h⟩ := h
    · exact (h.changeTheme name s).mono .inl
    · exact ⟨.inr ⟨q, hq, (h.changeTheme name s).1⟩, rfl⟩
  | tick dt => exact ⟨rfl, together_tick h dt s⟩

end Slate

end Colloquy
