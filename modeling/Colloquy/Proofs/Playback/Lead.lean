import Colloquy.Proofs.Playback.Calls
import Colloquy.Proofs.Playback.Operation
import Colloquy.Proofs.Playback.Sound

/-!
# Proofs/Playback/Lead — the main performance, one thing at a time

A player does several things at once when it is asked for something. `Lead.Act` lists what it does
one by one, each with the moment that it is. What is left to do between two of them is a `Cue`:
actions to fire, and where to go after them. Whatever a player is asked for, it does some of these
things one after the other (`Lead.reaches_next`, `Lead.reaches_select`, `Lead.reaches_tick`).
-/

namespace Colloquy

open Markup

/-! ## The performance apart from the player -/

namespace Player

/-- The player with another performance. -/
def put (p : Player) (q : Performance) : Player := { p with playing := some q }

@[simp] theorem playing_put (p : Player) (q : Performance) : (p.put q).playing = some q := rfl

@[simp] theorem put_put (p : Player) (q r : Performance) : (p.put q).put r = p.put r := rfl

theorem stop_of_playing {p : Player} {q : Performance} (h : p.playing = some q) (s : Stage) :
    p.stop s =
      ({ p with playing := none },
        (s.observe [.close .main]).report (.conversationEnded q.name)) := by
  rw [stop, h]

theorem stop_of_idle {p : Player} (h : p.playing = none) (s : Stage) : p.stop s = (p, s) := by
  rw [stop, h]

theorem dress_put (p : Player) (q : Performance) (d : Dialogue) (s : Stage) :
    (p.put q).dress d s = ((p.dress d s).1.put q, (p.dress d s).2) := by
  unfold dress
  split
  · by_cases h : p.theme = some ‹String›
    · rw [if_pos h, if_pos (show (p.put q).theme = _ from h)]
    · rw [if_neg h, if_neg (show ¬ (p.put q).theme = _ from h)]
      rfl
  · rfl

@[simp] theorem vars_dress (p : Player) (d : Dialogue) (s : Stage) :
    (p.dress d s).2.vars = s.vars := by
  unfold dress
  split
  · split <;> rfl
  · rfl

/-- Only the dialogue and who spoke last count for saying a sentence. -/
theorem say_put (setting : Setting) (q r : Performance) (raw : String) (p : Player) (s : Stage)
    (phase : Phase) :
    say setting { q with phase } raw (p.put r) s = say setting q raw p s := by
  unfold say
  dsimp only
  rw [dress_put]
  rfl

/-- The performance of a sentence that has just been shown. -/
def saying (setting : Setting) (q : Performance) (sentence : Sentence) : Performance :=
  { q with
    sentenceIndex? := some q.said
    sentence
    lastSpeaker := q.dialogue.speaker?
    opening := false
    phase := .revealing (revealOf setting q sentence) }

theorem playing_say (setting : Setting) (q : Performance) (raw : String) (p : Player) (s : Stage) :
    (say setting q raw p s).1.playing =
      some (saying setting q (Reading.ofText s.vars raw).sentence) := by
  rw [← vars_dress p q.dialogue s]
  rfl

/-- No answer to another request ends the conversation. -/
theorem answer_put {r : Request} (hr : r ≠ .closeConversation) (p : Player) (q : Performance)
    (s : Stage) : (p.put q).answer r s = ((p.answer r s).1.put q, (p.answer r s).2) := by
  cases r with
  | closeConversation => exact absurd rfl hr
  | _ => rfl

theorem playing_answer {r : Request} (hr : r ≠ .closeConversation) (p : Player) (s : Stage) :
    (p.answer r s).1.playing = p.playing := by
  cases r with
  | closeConversation => exact absurd rfl hr
  | _ => rfl

theorem followUp_put {f : FollowUp} (hf : f ≠ .request .closeConversation) (p : Player)
    (q : Performance) (s : Stage) :
    (p.put q).followUp s f = ((p.followUp s f).1.put q, (p.followUp s f).2) := by
  cases f with
  | request r => exact answer_put (fun hr => hf (hr ▸ rfl)) p q s
  | _ => rfl

theorem playing_followUp {f : FollowUp} (hf : f ≠ .request .closeConversation) (p : Player)
    (s : Stage) : (p.followUp s f).1.playing = p.playing := by
  cases f with
  | request r => exact playing_answer (fun hr => hf (hr ▸ rfl)) p s
  | _ => rfl

end Player

namespace Performance

/-- The script is sound, and the dialogue is one of it. -/
structure Sound (q : Performance) : Prop where
  script : q.script.Sound
  dialogue : q.dialogue ∈ q.script.dialogues

/-- Where a dialogue leads, there is one to go to. -/
theorem Sound.exists_of_link {q : Performance} (hq : q.Sound) {said : Nat} {id : Int32}
    (h : q.dialogue.outlook said = .link id) : ∃ d, q.script.dialogue? id = some d := by
  refine hq.script.links _ hq.dialogue id (List.mem_append_left _ ?_)
  rw [(Dialogue.outlook_eq_link h).2.2]
  exact List.mem_singleton_self id

theorem Sound.exists_of_choice {q : Performance} (hq : q.Sound) {index : Nat} {c : Choice}
    {id : Int32} (hc : q.dialogue.choices[index]? = some c) (h : c.next? = some id) :
    ∃ d, q.script.dialogue? id = some d :=
  hq.script.links _ hq.dialogue id
    (List.mem_append_right _ (List.mem_filterMap.2 ⟨c, List.mem_of_getElem? hc, h⟩))

theorem eq_of_phase {q : Performance} {phase : Phase} (h : q.phase = phase) :
    { q with phase } = q := by
  rw [← h]

end Performance

/-! ## What is done one by one -/

/-- Where to go after some actions: on in the dialogue, through a choice, to another dialogue, or to
the end. -/
inductive Goal
  | onward
  | choice (index : Nat) (c : Choice)
  | link (id : Int32)
  | ending (why : Ending)
deriving DecidableEq

/-- The goal of a choice. -/
def Choice.goal (c : Choice) : Goal :=
  match c.next? with
  | some id => .link id
  | none => .ending .afterChoice

/-- Actions that are to be fired, and where to go after them. -/
structure Cue where
  actions : List String
  goal : Goal
deriving DecidableEq

/-- What is left to do when a sentence is whole: to go on, if the dialogue proceeds by itself. -/
def Performance.afterwards (q : Performance) : Option Cue :=
  if q.dialogue.autoProceed then some ⟨[], .onward⟩ else none

/-- What an operation gives a player to do: to go on from a sentence that is whole, to go through a
choice that is offered, or to end. -/
def Player.cueFor (p : Player) : Operation → Option Cue
  | .next =>
    match p.playing with
    | some q => if q.phase = .settled then some ⟨[], .onward⟩ else none
    | none => none
  | .select index =>
    match p.playing with
    | some q =>
      if q.phase = .choosing then
        q.dialogue.choices[index]?.map fun c => ⟨[], .choice index c⟩
      else none
    | none => none
  | .stop => p.playing.map fun _ => ⟨[], .ending .stopped⟩
  | _ => none

/-- The player, what is left for it to do, and the stage. -/
structure Lead where
  player : Player
  cue? : Option Cue
  stage : Stage

namespace Lead

/-- A player and a stage, and what is left to do. -/
def of (cue? : Option Cue) (played : Player × Stage) : Lead := ⟨played.1, cue?, played.2⟩

variable (setting : Setting) (o : Operation)

/-- One thing that is done in the main performance, in the course of an operation. -/
inductive Act : Lead → Option Moment → Lead → Prop
  /-- The next sentence of the dialogue is shown. -/
  | say {q : Performance} {raw : String} {p : Player} {s : Stage} (hq : p.playing = some q)
    (hp : q.phase = .settled) (ho : q.dialogue.outlook q.said = .sentence raw) :
    Act ⟨p, some ⟨[], .onward⟩, s⟩
      (some (.shown q.dialogue q.said (Reading.ofText s.vars raw).sentence))
      (.of none (p.say setting q raw s))
  /-- Time passes, if the operation lets it. -/
  | elapse {q : Performance} {r : Reveal} {dt : Single} {p : Player} {s : Stage}
    (hq : p.playing = some q) (hp : q.phase = .revealing r) (ho : o = .tick dt) :
    Act ⟨p, none, s⟩ none ⟨p.put { q with phase := .revealing (r.elapse dt) }, none, s⟩
  | letter {q : Performance} {r r' : Reveal} {p : Player} {s : Stage} (hq : p.playing = some q)
    (hp : q.phase = .revealing r) (hr : r.step = (.character, r')) :
    Act ⟨p, none, s⟩ (some .letter)
      ⟨p.put { q with phase := .revealing r' }, none, s.observe [.reveal .main]⟩
  /-- A tag takes effect that does not end the conversation. -/
  | tag {q : Performance} {r r' : Reveal} {c : Command} {p : Player} {s : Stage} {deed : Deed}
    (hq : p.playing = some q) (hp : q.phase = .revealing r) (hr : r.step = (.tag c, r'))
    (hd : s.carryOut setting q.script.actions r'.clock c = deed)
    (hf : deed.followUp ≠ .request .closeConversation) :
    Act ⟨p, none, s⟩ (some (.tag c))
      (.of none ((p.put { q with phase := .revealing { r' with clock := deed.clock } }).followUp
        deed.stage deed.followUp))
  /-- A tag takes effect, after which the conversation is to end. -/
  | lastTag {q : Performance} {r r' : Reveal} {c : Command} {p : Player} {s : Stage} {deed : Deed}
    (hq : p.playing = some q) (hp : q.phase = .revealing r) (hr : r.step = (.tag c, r'))
    (hd : s.carryOut setting q.script.actions r'.clock c = deed)
    (hf : deed.followUp = .request .closeConversation) :
    Act ⟨p, none, s⟩ (some (.tag c))
      ⟨p.put { q with phase := .revealing r' }, some ⟨[], .ending .asked⟩, deed.stage⟩
  | whole {q : Performance} {r r' : Reveal} {p : Player} {s : Stage} (hq : p.playing = some q)
    (hp : q.phase = .revealing r) (hr : r.step = (.finished, r')) :
    Act ⟨p, none, s⟩ (some .whole)
      ⟨p.put { q with phase := .settled }, q.afterwards, s.observe [.revealed .main]⟩
  /-- The dialogue is left for the next one. -/
  | link {q : Performance} {id : Int32} {d : Dialogue} {p : Player} {s : Stage}
    (hq : p.playing = some q) (hp : q.phase = .settled)
    (ho : q.dialogue.outlook q.said = .link id) (hd : q.script.dialogue? id = some d) :
    Act ⟨p, some ⟨[], .onward⟩, s⟩ (some (.entered d))
      ⟨p.put (q.move d), some ⟨[], .onward⟩, s⟩
  | offer {q : Performance} {p : Player} {s : Stage} (hq : p.playing = some q)
    (hp : q.phase = .settled) (ho : q.dialogue.outlook q.said = .choices) :
    Act ⟨p, some ⟨[], .onward⟩, s⟩ (some (.offered q.dialogue)) (.of none (p.offer q s))
  /-- A choice is made. -/
  | choose {q : Performance} {index : Nat} {c : Choice} {p : Player} {s : Stage}
    (hq : p.playing = some q) (hp : q.phase = .choosing)
    (hc : q.dialogue.choices[index]? = some c) :
    Act ⟨p, some ⟨[], .choice index c⟩, s⟩ (some (.chosen index c))
      ⟨p, some ⟨c.actions, c.goal⟩, s⟩
  /-- Nothing comes after the dialogue but its actions. -/
  | conclude {q : Performance} {p : Player} {s : Stage} (hq : p.playing = some q)
    (hp : q.phase = .settled) (ho : q.dialogue.outlook q.said = .ending) :
    Act ⟨p, some ⟨[], .onward⟩, s⟩ (some (.concluded q.dialogue))
      ⟨p, some ⟨q.dialogue.onFinished, .ending .exhausted⟩, s⟩
  /-- The next action is fired, which does not end the conversation. -/
  | fire {q : Performance} {a : String} {as : List String} {g : Goal} {p : Player} {s s' : Stage}
    (hq : p.playing = some q) (hp : q.reveal? = none)
    (hf : s.fire setting q.script.actions a .nothing = (none, s')) :
    Act ⟨p, some ⟨a :: as, g⟩, s⟩ (some (.fired a)) ⟨p, some ⟨as, g⟩, s'⟩
  | request {q : Performance} {a : String} {as : List String} {g : Goal} {r : Request}
    {p : Player} {s s' : Stage} (hq : p.playing = some q) (hp : q.reveal? = none)
    (hf : s.fire setting q.script.actions a .nothing = (some r, s')) (hr : r ≠ .closeConversation) :
    Act ⟨p, some ⟨a :: as, g⟩, s⟩ (some (.fired a)) (.of (some ⟨as, g⟩) (p.answer r s'))
  /-- An action is fired, after which the conversation is to end. -/
  | lastAction {q : Performance} {a : String} {as : List String} {g : Goal} {p : Player}
    {s s' : Stage} (hq : p.playing = some q) (hp : q.reveal? = none)
    (hf : s.fire setting q.script.actions a .nothing = (some .closeConversation, s')) :
    Act ⟨p, some ⟨a :: as, g⟩, s⟩ (some (.fired a)) ⟨p, some ⟨[], .ending .asked⟩, s'⟩
  /-- The choice that was made leads on. -/
  | follow {q : Performance} {id : Int32} {d : Dialogue} {p : Player} {s : Stage}
    (hq : p.playing = some q) (hp : q.reveal? = none) (hd : q.script.dialogue? id = some d) :
    Act ⟨p, some ⟨[], .link id⟩, s⟩ (some (.entered d))
      ⟨p.put { q.move d with phase := .settled }, some ⟨[], .onward⟩, s⟩
  | note {p : Player} {cue? : Option Cue} {s : Stage} (notes : List Note) :
    Act ⟨p, cue?, s⟩ none ⟨p, cue?, s.annotate notes⟩
  /-- The request to end that was left first is carried out. -/
  | obey {q : Performance} {rest : List Request} {p : Player} {s : Stage}
    (hq : p.playing = some q) (hr : s.requests = .closeConversation :: rest) :
    Act ⟨p, none, s⟩ none ⟨p, some ⟨[], .ending .routed⟩, { s with requests := rest }⟩
  | finish {q : Performance} {why : Ending} {p : Player} {s : Stage} (hq : p.playing = some q) :
    Act ⟨p, some ⟨[], .ending why⟩, s⟩ (some (.ended q.name why)) (.of none (p.stop s))

/-! ## What a player does, done one by one -/

variable {setting o}

/-- Actions are fired one after the other, and what follows is left to do unless one of them ended
the conversation. -/
theorem reaches_fireAll {q : Performance} (hr : q.reveal? = none) (g : Goal) (as : List String) :
    ∀ {p : Player} {s : Stage}, p.playing = some q →
      (p.fireAll setting q.script.actions as s).1.playing = some q ∧
          Reaches (Act setting o) ⟨p, some ⟨as, g⟩, s⟩
            (.of (some ⟨[], g⟩) (p.fireAll setting q.script.actions as s)) ∨
        (p.fireAll setting q.script.actions as s).1.playing = none ∧
          Reaches (Act setting o) ⟨p, some ⟨as, g⟩, s⟩
            (.of none (p.fireAll setting q.script.actions as s)) := by
  induction as with
  | nil => exact fun hq => .inl ⟨hq, .refl _⟩
  | cons a as ih =>
    intro p s hq
    rw [Player.fireAll]
    rcases hf : s.fire setting q.script.actions a .nothing with ⟨request?, s'⟩
    cases request? with
    | none =>
      rcases ih hq (s := s') with ⟨hp, h⟩ | ⟨hp, h⟩
      · exact .inl ⟨hp, .cons (.fire hq hr hf) h⟩
      · exact .inr ⟨hp, .cons (.fire hq hr hf) h⟩
    | some r =>
      by_cases hc : r = .closeConversation
      · subst hc
        have hp : (p.answer .closeConversation s').1.playing = none := by
          rw [Player.answer, Player.stop_of_playing hq]
        simp only [hp, Option.isSome_none]
        exact .inr ⟨hp, .cons (.lastAction hq hr hf) (.single (.finish hq))⟩
      · have hp : (p.answer r s').1.playing = some q := by rw [Player.playing_answer hc, hq]
        simp only [hp, Option.isSome_some]
        rcases ih hp (s := (p.answer r s').2) with ⟨hp, h⟩ | ⟨hp, h⟩
        · exact .inl ⟨hp, .cons (.request hq hr hf hc) h⟩
        · exact .inr ⟨hp, .cons (.request hq hr hf hc) h⟩

/-- In a sound script, whoever enters a dialogue says its first sentence. -/
theorem enter_eq (setting : Setting) {q : Performance} (hs : q.script.Sound) {d : Dialogue}
    (hd : d ∈ q.script.dialogues) (p : Player) (s : Stage) :
    ∃ raw, d.outlook 0 = .sentence raw ∧
      p.enter setting q d s = p.say setting (q.move d) raw s := by
  obtain ⟨raw, -, ho, -⟩ := hs.exists_outlook hd
  refine ⟨raw, ho, ?_⟩
  have htrail : q.script.trail? (·.outlook 0) d = some ⟨[], .at d⟩ :=
    Conversation.trail?_of_sentence ho
  have hstay : p.stay setting (q.move d) s = p.say setting (q.move d) raw s := by
    unfold Player.stay
    rw [show (q.move d).dialogue.outlook (q.move d).said = _ from ho]
  unfold Player.enter
  rw [htrail]
  exact hstay

theorem goTo_eq (setting : Setting) {q : Performance} (hs : q.Sound) {id : Int32} {d : Dialogue}
    (hd : q.script.dialogue? id = some d) (p : Player) (s : Stage) :
    ∃ raw, d.outlook 0 = .sentence raw ∧
      p.goTo setting q id s =
        ⟨.ok (), (p.say setting (q.move d) raw s).1, (p.say setting (q.move d) raw s).2⟩ := by
  obtain ⟨raw, ho, h⟩ := enter_eq setting hs.script (Conversation.mem_of_dialogue? hd).1 p s
  refine ⟨raw, ho, ?_⟩
  unfold Player.goTo
  rw [hd]
  dsimp only
  rw [h]

/-- From where a dialogue was entered, its first sentence is said. -/
theorem reaches_goTo {q : Performance} (hs : q.Sound) {id : Int32} {d : Dialogue}
    (hd : q.script.dialogue? id = some d) (p : Player) (s : Stage) :
    Reaches (Act setting o) ⟨p.put { q.move d with phase := .settled }, some ⟨[], .onward⟩, s⟩
      ⟨(p.goTo setting q id s).player, none, (p.goTo setting q id s).stage⟩ := by
  obtain ⟨raw, ho, h⟩ := goTo_eq setting hs hd p s
  rw [h, ← Player.say_put setting (q.move d) { q.move d with phase := .settled } raw p s .settled]
  exact .single (.say rfl rfl ho)

theorem reaches_advance {p : Player} {q : Performance} {s : Stage} (hq : p.playing = some q)
    (hp : q.phase = .settled) (hs : q.Sound) :
    Reaches (Act setting o) ⟨p, some ⟨[], .onward⟩, s⟩ (.of none (p.advance setting q s)) := by
  unfold Player.advance Player.stay
  split
  case h_1 id ho =>
    obtain ⟨d, hd⟩ := hs.exists_of_link ho
    have hmove : p.put (q.move d) = p.put { q.move d with phase := .settled } :=
      congrArg p.put (Performance.eq_of_phase (q := q.move d) hp).symm
    exact .cons (.link hq hp ho hd) (hmove ▸ reaches_goTo hs hd p s)
  case h_2 hlink =>
    split
    case h_1 raw ho => exact .single (.say hq hp ho)
    case h_2 ho => exact .single (.offer hq hp ho)
    case h_3 id ho => exact absurd ho (hlink id)
    case h_4 ho =>
      have hr : q.reveal? = none := by rw [Performance.reveal?, hp]
      refine .cons (.conclude hq hp ho) ?_
      obtain ⟨hfired, h⟩ | ⟨hfired, h⟩ :=
        reaches_fireAll hr (.ending .exhausted) q.dialogue.onFinished hq (s := s)
      · exact h.trans (.single (.finish hfired))
      · have hidle : p.finish setting q s = p.fireAll setting q.script.actions _ s :=
          Player.stop_of_idle hfired _
        rw [hidle]
        exact h

/-- A choice that has been made is carried out, and that is never refused. -/
theorem reaches_choose {p : Player} {q : Performance} {s : Stage} (hq : p.playing = some q)
    (hr : q.reveal? = none) (hs : q.Sound) {index : Nat} {c : Choice}
    (hc : q.dialogue.choices[index]? = some c) :
    (p.choose setting q c s).result = .ok () ∧
      Reaches (Act setting o) ⟨p, some ⟨c.actions, c.goal⟩, s⟩
        ⟨(p.choose setting q c s).player, none, (p.choose setting q c s).stage⟩ := by
  obtain ⟨hfired, h⟩ | ⟨hfired, h⟩ := reaches_fireAll hr c.goal c.actions hq (s := s)
  · unfold Player.choose
    dsimp only
    unfold Choice.goal at h ⊢
    rw [hfired]
    cases hn : c.next? with
    | none =>
      rw [hn] at h
      exact ⟨rfl, h.trans (.single (.finish hfired))⟩
    | some id =>
      rw [hn] at h
      obtain ⟨d, hd⟩ := hs.exists_of_choice hc hn
      dsimp only
      refine ⟨?_, h.trans (.cons (.follow hfired hr hd) (reaches_goTo hs hd _ _))⟩
      obtain ⟨raw, -, hgo⟩ := goTo_eq setting hs hd
        (p.fireAll setting q.script.actions c.actions s).1
        (p.fireAll setting q.script.actions c.actions s).2
      rw [hgo]
  · have hidle : p.choose setting q c s =
        ⟨.ok (), (p.fireAll setting q.script.actions c.actions s).1,
          (p.fireAll setting q.script.actions c.actions s).2⟩ := by
      unfold Player.choose
      dsimp only
      rw [hfired, Player.stop_of_idle hfired]
    rw [hidle]
    exact ⟨rfl, h⟩

/-- What is selected is chosen, unless it is refused. -/
theorem reaches_select {p : Player} {s : Stage} (hs : ∀ q, p.playing = some q → q.Sound)
    (index : Nat) :
    Reaches (Act setting o) ⟨p, p.cueFor (.select index), s⟩
      ⟨(p.select setting index s).player, none, (p.select setting index s).stage⟩ := by
  unfold Player.select Player.cueFor
  cases hq : p.playing with
  | none => exact .refl _
  | some q =>
    dsimp only
    split
    case isTrue hp =>
      cases hc : q.dialogue.choices[index]? with
      | none => exact .single (.note _)
      | some c =>
        have hr : q.reveal? = none := by rw [Performance.reveal?, hp]
        exact .cons (.choose hq hp hc) (reaches_choose hq hr (hs q hq) hc).2
    case isFalse => exact .single (.note _)

/-- A selection is answered well if it is of a choice that is offered, and only then, unless nothing
is performed. -/
theorem result_select_eq_ok_iff {p : Player} {q : Performance} {s : Stage}
    (hq : p.playing = some q) (hs : q.Sound) {index : Nat} :
    (p.select setting index s).result = .ok () ↔ (p.cueFor (.select index)).isSome = true := by
  unfold Player.select Player.cueFor
  rw [hq]
  dsimp only
  split
  case isTrue hp =>
    cases hc : q.dialogue.choices[index]? with
    | none => simp [Player.refuse]
    | some c =>
      have hr : q.reveal? = none := by rw [Performance.reveal?, hp]
      have h : _ ∧ Reaches (Act setting .next) _ _ := reaches_choose hq hr hs hc (s := s)
      simp [h.1]
  case isFalse => simp [Player.refuse]

/-- What follows on a sentence is done, unless that is refused. -/
theorem reaches_next {p : Player} {s : Stage} (hs : ∀ q, p.playing = some q → q.Sound) :
    Reaches (Act setting o) ⟨p, p.cueFor .next, s⟩
      ⟨(p.next setting s).player, none, (p.next setting s).stage⟩ := by
  unfold Player.next Player.cueFor
  cases hq : p.playing with
  | none => exact .refl _
  | some q =>
    dsimp only
    cases hp : q.phase with
    | choosing => exact .single (.note _)
    | revealing r => exact .single (.note _)
    | settled => exact reaches_advance hq hp (hs q hq)

theorem reaches_stop (p : Player) (s : Stage) :
    Reaches (Act setting o) ⟨p, p.cueFor .stop, s⟩ (.of none (p.stop s)) := by
  cases hq : p.playing with
  | none =>
    rw [Player.stop_of_idle hq, Player.cueFor, hq]
    exact .refl _
  | some q =>
    rw [Player.cueFor, hq]
    exact .single (.finish hq)

/-! ## Time -/

/-- The lead in the midst of a sentence. -/
def during (q : Performance) (r : Reveal) (p : Player) (s : Stage) : Lead :=
  ⟨p.put { q with phase := .revealing r }, none, s⟩

/-- The lead when steps have been taken as far as the clock allowed. -/
def after (q : Performance) : Progress × Player × Stage → Lead
  | (.waiting r, p, s) => during q r p s
  | (.finished, p, s) =>
    ⟨p.put { q with phase := .settled }, q.afterwards, s.observe [.revealed .main]⟩
  | (.broken, p, s) => ⟨p, none, s⟩

/-- The steps of a reveal are taken one by one. The player that takes them in one go leaves the
reveal in its performance as it was, so that the two agree but for that. -/
theorem reaches_runBeats {q : Performance} (bs : List Beat) :
    ∀ {n : Nat} {k : Clock} {p : Player} {s : Stage}, p.playing = some q →
      Reaches (Act setting o) (during q ⟨bs, n, k⟩ p s)
        (after q (Reveal.runBeats (Player.handler setting q.script.actions) bs n k (p, s))) := by
  induction bs with
  | nil =>
    intro n k p s hq
    unfold Reveal.runBeats
    split
    case isTrue => exact .refl _
    case isFalse hw =>
      have hstep : (⟨[], n, k⟩ : Reveal).step = (.finished, ⟨[], n, k⟩) := by
        simp [Reveal.step, hw]
      exact .single (.whole (q := { q with phase := .revealing ⟨[], n, k⟩ }) rfl rfl hstep)
  | cons b bs ih =>
    intro n k p s hq
    cases b with
    | character c =>
      unfold Reveal.runBeats
      split
      case isTrue => exact .refl _
      case isFalse hw => exact .cons (.letter rfl rfl (by simp [Reveal.step, hw])) (ih hq)
    | tag c =>
      unfold Reveal.runBeats
      split
      case isTrue => exact .refl _
      case isFalse hw =>
        have hstep : (⟨.tag c :: bs, n, k⟩ : Reveal).step = (.tag c, ⟨bs, n, k⟩) := by
          simp [Reveal.step, hw]
        unfold Player.handler
        dsimp only
        generalize hd : s.carryOut setting q.script.actions k c = deed
        by_cases hf : deed.followUp = .request .closeConversation
        · have hstop : p.followUp deed.stage deed.followUp = p.stop deed.stage := by
            rw [hf, Player.followUp, Player.answer]
          rw [hstop, Player.stop_of_playing hq]
          exact .cons (.lastTag rfl rfl hstep hd hf) (.single (.finish rfl))
        · have hp : (p.followUp deed.stage deed.followUp).1.playing = some q := by
            rw [Player.playing_followUp hf, hq]
          rw [hp, Option.isSome_some, if_pos rfl]
          refine .cons (.tag rfl rfl hstep hd hf) ?_
          rw [Player.put_put, Player.followUp_put hf]
          exact ih hp

theorem reaches_run {p : Player} {q : Performance} {s : Stage} (hq : p.playing = some q)
    (r : Reveal) :
    Reaches (Act setting o) (during q r p s)
      (after q (r.run (Player.handler setting q.script.actions) (p, s))) :=
  reaches_runBeats r.pending hq

/-- What happens as time passes is done one by one. -/
theorem reaches_tick {p : Player} {s : Stage} (hs : ∀ q, p.playing = some q → q.Sound)
    {dt : Single} (ho : o = .tick dt) :
    Reaches (Act setting o) ⟨p, none, s⟩ (.of none (p.tick setting dt s)) := by
  unfold Player.tick
  cases hq : p.playing with
  | none => exact .refl _
  | some q =>
    cases hp : q.phase with
    | settled =>
      simp only [Option.bind_some, Performance.reveal?, hp, Option.map_none]
      exact .refl _
    | choosing =>
      simp only [Option.bind_some, Performance.reveal?, hp, Option.map_none]
      exact .refl _
    | revealing r =>
      simp only [Option.bind_some, Performance.reveal?, hp, Option.map_some]
      refine .cons (.elapse hq hp ho) ?_
      refine .trans (reaches_run hq (r.elapse dt)) ?_
      rcases Reveal.run _ _ _ with ⟨_ | _ | _, p', s'⟩
      · exact .refl _
      · dsimp only [after, Performance.afterwards]
        by_cases hauto : q.dialogue.autoProceed = true
        · rw [if_pos hauto, if_pos hauto]
          exact reaches_advance rfl rfl ⟨(hs q hq).script, (hs q hq).dialogue⟩
        · rw [if_neg hauto, if_neg hauto]
          exact .refl _
      · exact .refl _

end Lead

end Colloquy
