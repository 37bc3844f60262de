import Colloquy.Proofs.Playback.Past
import Colloquy.Proofs.Playback.Slate

/-!
# Proofs/Playback/Afresh — each conversation starts afresh

A `Performer` is asked for things and looked at; of each thing that is asked for there is an
`Account`, of all that comes of it and all that can be seen then. `Player` is a performer, and so is
`Slate`, which keeps in one record what the player has or has not, and never wipes it all. Two of
them that are idle in the same theme give the same accounts from then on, whatever they have been
asked for before (`Player.starts_afresh`). For slates that is not obvious, since they may differ;
they mimic players (`Slate.mimics`), and of an idle player nothing but the theme is left. That the
stages they go on may differ in all but the variables is no matter either, since no performer looks
at the rest (`Performer.accounts_eq_of_vars`).
-/

namespace Colloquy

/-! ## Performers -/

/-- What can be seen of a performer. -/
structure Look where
  activity : Activity
  name? : Option String
  dialogue? : Option Dialogue
  sentenceIndex? : Option Nat
  theme : Option String
  text? : Option String
  /-- The clock of the sentence that is being revealed: the delay to come, and the speed. -/
  clock? : Option Clock

/-- A way to perform. -/
structure Performer (σ : Type) where
  new : σ
  respond : Setting → PlayerCall → σ → Stage → Reply σ
  look : σ → Look

/-- A player as a performer. -/
def Player.performer : Performer Player where
  new := .idle
  respond := respond
  look p :=
    { activity := p.activity
      name? := p.playing.map (·.name)
      dialogue? := p.playing.map (·.dialogue)
      sentenceIndex? := p.playing.bind (·.sentenceIndex?)
      theme := p.theme
      text? := p.text?
      clock? := p.playing.bind (·.reveal?.map (·.clock)) }

/-- A slate as a performer. Names and dialogues are only shown while there is a script. -/
def Slate.performer : Performer Slate where
  new := .blank
  respond := respond
  look c :=
    { activity := c.activity
      name? := c.script?.map fun _ => c.name
      dialogue? := c.script?.bind fun _ => c.dialogue?
      sentenceIndex? := c.sentenceIndex?
      theme := c.theme
      text? := if c.activity = .idle then none else some c.text
      clock? := c.reveal?.map (·.clock) }

/-- What happens to a performer: it is called, the game changes the variables, or takes the requests
and events that are there. -/
inductive Ask
  | call (c : PlayerCall)
  | vary (v : VariableCall)
  | collect

/-- What there is to tell of one thing that was asked for: the result, what it has added to the
stage, with the variables as they are then, and how the performer looks. -/
structure Account where
  result : Except PlaybackError Unit
  added : Stage
  look : Look

/-- What was added to a stage since the past. The variables are those of now. -/
def Stage.since (s past : Stage) : Stage :=
  ⟨s.vars, s.requests.drop past.requests.length, s.events.drop past.events.length,
    s.trace.drop past.trace.length⟩

/-- The stage with the requests and events taken from it. -/
def Stage.collect (s : Stage) : Stage := { s with requests := [], events := [] }

theorem Stage.since_after (s t past : Stage) :
    (s.after past).since (t.after past) = s.since t := by
  simp only [since, after, List.length_append, List.drop_length_add_append]

namespace Performer

variable {σ τ : Type}

/-- What comes of something that is asked for. -/
def ask (e : Performer σ) (setting : Setting) (a : Ask) (x : σ) (s : Stage) : Reply σ :=
  match a with
  | .call c => e.respond setting c x s
  | .vary v => ⟨.ok (), x, s.vary v⟩
  | .collect => ⟨.ok (), x, s.collect⟩

/-- The accounts of what is asked for one after the other. -/
def accounts (e : Performer σ) (setting : Setting) : List Ask → σ → Stage → List Account
  | [], _, _ => []
  | a :: asks, x, s =>
    let r := e.ask setting a x s
    ⟨r.result, r.stage.since s, e.look r.performer⟩ :: e.accounts setting asks r.performer r.stage

/-- The performer and all that was observed, after one more call. -/
def meet (e : Performer σ) (x : σ × Trace) (o : Occasion) : σ × Trace :=
  let r := e.respond o.setting o.call x.1 ⟨o.vars, o.requests, o.events, x.2⟩
  (r.performer, r.stage.trace)

/-- The performer and all that was observed, after some calls. -/
def meetAll (e : Performer σ) (os : List Occasion) : σ × Trace := os.foldl e.meet (e.new, [])

/-! ## Mimics -/

/-- A performer mimics another: where they are related, they reply the same on one stage, look the
same, and stay related. -/
structure Mimics (e : Performer σ) (f : Performer τ) (R : σ → τ → Prop) : Prop where
  new : R e.new f.new
  look : ∀ {x y}, R x y → e.look x = f.look y
  respond : ∀ {x y}, R x y → ∀ setting c s,
    (e.respond setting c x s).result = (f.respond setting c y s).result ∧
      R (e.respond setting c x s).performer (f.respond setting c y s).performer ∧
        (e.respond setting c x s).stage = (f.respond setting c y s).stage

variable {e : Performer σ} {f : Performer τ} {R : σ → τ → Prop}

theorem Mimics.ask (h : e.Mimics f R) {x : σ} {y : τ} (hxy : R x y) (setting : Setting) (a : Ask)
    (s : Stage) :
    (e.ask setting a x s).result = (f.ask setting a y s).result ∧
      R (e.ask setting a x s).performer (f.ask setting a y s).performer ∧
        (e.ask setting a x s).stage = (f.ask setting a y s).stage := by
  cases a with
  | call c => exact h.respond hxy setting c s
  | vary v => exact ⟨rfl, hxy, rfl⟩
  | collect => exact ⟨rfl, hxy, rfl⟩

/-- A mimic gives the same accounts. -/
theorem Mimics.accounts_eq (h : e.Mimics f R) (setting : Setting) (asks : List Ask) :
    ∀ {x : σ} {y : τ} (s : Stage), R x y →
      e.accounts setting asks x s = f.accounts setting asks y s := by
  induction asks with
  | nil => exact fun _ _ => rfl
  | cons a asks ih =>
    intro x y s hxy
    obtain ⟨hresult, hafter, hs⟩ := h.ask hxy setting a s
    unfold accounts
    dsimp only
    rw [hresult, h.look hafter, hs, ih _ hafter]

/-- A mimic stays one, whatever both are asked for. -/
theorem Mimics.meetAll (h : e.Mimics f R) (os : List Occasion) :
    R (e.meetAll os).1 (f.meetAll os).1 := by
  have hfold : ∀ {x : σ × Trace} {y : τ × Trace}, R x.1 y.1 → x.2 = y.2 →
      R (os.foldl e.meet x).1 (os.foldl f.meet y).1 := by
    induction os with
    | nil => exact fun hxy _ => hxy
    | cons o os ih =>
      intro x y hxy ht
      obtain ⟨-, hafter, hs⟩ :=
        h.respond hxy o.setting o.call ⟨o.vars, o.requests, o.events, x.2⟩
      rw [ht] at hafter hs
      exact ih (by rwa [meet, meet, ht]) (by rw [meet, meet, ht, hs])
  exact hfold h.new rfl

/-! ## The past -/

/-- What a performer is asked for, it does the same after any past. -/
def IgnoresPast (e : Performer σ) : Prop :=
  ∀ setting c x s past, e.respond setting c x (s.after past) =
    { e.respond setting c x s with stage := (e.respond setting c x s).stage.after past }

/-- The accounts after one past are those after another. The pasts may grow apart, as what is there
is taken from both. -/
theorem accounts_after (h : e.IgnoresPast) (setting : Setting) (asks : List Ask) :
    ∀ (x : σ) (s past : Stage),
      e.accounts setting asks x (s.after past) = e.accounts setting asks x s := by
  induction asks with
  | nil => exact fun _ _ _ => rfl
  | cons a asks ih =>
    intro x s past
    obtain ⟨past', hask⟩ : ∃ past', e.ask setting a x (s.after past) =
        { e.ask setting a x s with stage := (e.ask setting a x s).stage.after past' } ∧
          ((e.ask setting a x s).stage.after past').since (s.after past) =
            (e.ask setting a x s).stage.since s := by
      cases a with
      | call c => exact ⟨past, h setting c x s past, Stage.since_after ..⟩
      | vary v => exact ⟨past, by simp only [ask, Stage.vary_after], Stage.since_after ..⟩
      | collect => exact ⟨past.collect, by simp [ask, Stage.collect, Stage.after], by
          simp [ask, Stage.collect, Stage.after, Stage.since]⟩
    unfold accounts
    dsimp only
    rw [hask.1, hask.2]
    dsimp only
    rw [ih]

/-- **Of the stage, only the variables count.** -/
theorem accounts_eq_of_vars (h : e.IgnoresPast) (setting : Setting) (asks : List Ask) (x : σ)
    {s s' : Stage} (hvars : s.vars = s'.vars) :
    e.accounts setting asks x s = e.accounts setting asks x s' := by
  have hclean : ∀ s : Stage, e.accounts setting asks x s =
      e.accounts setting asks x (.ofVariables s.vars) := by
    intro s
    have := accounts_after h setting asks x (.ofVariables s.vars) s
    rwa [Stage.after_ofVariables] at this
  rw [hclean s, hclean s', hvars]

end Performer

/-! ## Players and slates -/

theorem Slate.Shows.look_eq {c : Slate} {p : Player} (h : c.Shows p) :
    Slate.performer.look c = Player.performer.look p := by
  unfold Slate.performer Player.performer
  dsimp only
  obtain h | ⟨q, hq, h⟩ := h
  · simp [Player.activity, Player.text?, h.playing, h.theme, h.rests.activity, h.rests.script,
      h.rests.sentenceIndex, h.rests.reveal]
  · have hactivity : p.activity = c.activity := by
      rw [Player.activity, hq, h.holds.activity]
    simp [Player.text?, hactivity, hq, h.theme, h.holds.activity_ne, h.holds.name, h.holds.script,
      h.holds.dialogue, h.holds.sentenceIndex, h.holds.text, h.holds.reveal]

/-- **Slates mimic players.** -/
theorem Slate.mimics : Slate.performer.Mimics Player.performer Slate.Shows where
  new := .inl ⟨rfl, ⟨rfl, rfl, rfl, rfl, rfl, rfl⟩, rfl⟩
  look := Shows.look_eq
  respond h _ c s := answers_respond h c s

theorem Player.ignoresPast : Player.performer.IgnoresPast := by
  intro setting c p s past
  unfold performer respond
  dsimp only
  cases c with
  | start name script => simp only [start_after, Turn.after]
  | next => simp only [next_after, Turn.after]
  | select index => simp only [select_after, Turn.after]
  | stop => simp only [p.ignoresPast_stop s past]
  | theme name => simp only [p.ignoresPast_changeTheme name s past]
  | tick dt => simp only [p.ignoresPast_tick setting dt s past]

theorem Player.eq_of_idle {p p' : Player} (h : p.activity = .idle) (h' : p'.activity = .idle)
    (htheme : p.theme = p'.theme) : p = p' := by
  have hnone : ∀ {p : Player}, p.activity = .idle → p.playing = none := by
    intro p h
    unfold activity at h
    split at h
    · assumption
    · split at h <;> cases h
  obtain ⟨theme, playing⟩ := p
  obtain ⟨theme', playing'⟩ := p'
  cases hnone h
  cases hnone h'
  cases htheme
  rfl

/-- **Each conversation starts afresh.** Two players that are idle in the same theme tell nothing of
what they have been asked for before, which may be anything, with any scripts and in any settings:
as long as the variables are equal, whatever is asked for next gives the same accounts. The same
holds of two slates, which may differ in what is left on them, and a slate gives the accounts of a
player. -/
theorem Player.starts_afresh {before before' : List Occasion} {s s' : Stage}
    (hidle : (performer.meetAll before).1.activity = .idle)
    (hidle' : (performer.meetAll before').1.activity = .idle)
    (htheme : (performer.meetAll before).1.theme = (performer.meetAll before').1.theme)
    (hvars : s.vars = s'.vars) (setting : Setting) (asks : List Ask) :
    performer.accounts setting asks (performer.meetAll before).1 s =
        performer.accounts setting asks (performer.meetAll before').1 s' ∧
      Slate.performer.accounts setting asks (Slate.performer.meetAll before).1 s =
        Slate.performer.accounts setting asks (Slate.performer.meetAll before').1 s' ∧
      Slate.performer.accounts setting asks (Slate.performer.meetAll before).1 s =
        performer.accounts setting asks (performer.meetAll before).1 s := by
  have hslate : ∀ (os : List Occasion) (s : Stage),
      Slate.performer.accounts setting asks (Slate.performer.meetAll os).1 s =
        performer.accounts setting asks (performer.meetAll os).1 s :=
    fun os s => Slate.mimics.accounts_eq setting asks s (Slate.mimics.meetAll os)
  have hplayer : performer.accounts setting asks (performer.meetAll before).1 s =
      performer.accounts setting asks (performer.meetAll before').1 s' := by
    rw [eq_of_idle hidle hidle' htheme]
    exact Performer.accounts_eq_of_vars ignoresPast setting asks _ hvars
  exact ⟨hplayer, (hslate before s).trans (hplayer.trans (hslate before' s').symm), hslate before s⟩

/-- A conversation is broken off, so that its dialogue and who spoke last are left on the slate; the
next conversation is as it would be on a slate that is blank. -/
theorem Player.starts_afresh_broken_off :
    let talk : Conversation :=
      { dialogues :=
          [{ id := 0, startingPoint := true, speaker := some "Ada", sentences := ["Well?"] }] }
    let setting : Setting := ⟨{}, default, fun _ => false⟩
    let before : List Occasion :=
      [⟨.start "talk" talk, setting, .empty, [], []⟩, ⟨.stop, setting, .empty, [], []⟩]
    let asks : List Ask := [.call (.start "talk" talk), .call (.tick 1), .call .next]
    let s : Stage := ⟨.empty, [], [.conversationEnded "talk"], [.close .main]⟩
    let s' : Stage := .ofVariables .empty
    (Slate.performer.meetAll before).1.lastSpeaker = some "Ada" ∧
      (Slate.performer.meetAll []).1.lastSpeaker = none ∧
      (performer.meetAll before).1.activity = .idle ∧
      (performer.meetAll before).1.theme = (performer.meetAll []).1.theme ∧
      performer.accounts setting asks (performer.meetAll before).1 s =
          performer.accounts setting asks (performer.meetAll []).1 s' ∧
        Slate.performer.accounts setting asks (Slate.performer.meetAll before).1 s =
          Slate.performer.accounts setting asks (Slate.performer.meetAll []).1 s' ∧
        Slate.performer.accounts setting asks (Slate.performer.meetAll before).1 s =
          performer.accounts setting asks (performer.meetAll before).1 s :=
  ⟨by decide +kernel, rfl, by decide +kernel, by decide +kernel,
    starts_afresh (by decide +kernel) (by decide +kernel) (by decide +kernel) (by rfl) _ _⟩

end Colloquy
