import Colloquy.Proofs.Playback.Record

/-!
# Proofs/Playback/Walk — the main performance walks through its script

A `Place` is where the main performance stands in its script, and a `Stride` what takes it from one
place to another. Sentences come one after the other; where they are exhausted there is one way on,
to the choices, to the next dialogue, or to the end.
-/

namespace Colloquy

open Markup

/-! ## Requests to end -/

/-- Whether an action of a script asks for the end. -/
def Conversation.closes (script : Conversation) (action : String) : Bool :=
  (script.actions.find? (·.name == action)).any (·.effect? = some .closeConversation)

/-- Whether a moment asks for the end: a tag or an action does that closes the conversation. -/
def Moment.closes (script : Conversation) : Moment → Bool
  | tag (.perform name _) | fired name => script.closes name
  | _ => false

namespace Action

/-- An action has the effect that its type names, unless it lacks something for it. -/
theorem effect_eq_close_iff (a : Action) :
    a.effect = .ok .closeConversation ↔ a.effect? = some .closeConversation := by
  unfold effect knownEffect
  cases he : a.effect? with
  | none => simp
  | some e =>
    cases e with
    | closeConversation => simp [Effect.needsMessage, Effect.needsTarget]
    | _ =>
      dsimp only
      split
      · simp
      · split <;> simp

theorem perform_eq_close_iff (accepts : String → Bool) (a : Action) :
    (a.perform accepts).result.toOption.join = some .closeConversation ↔
      a.effect? = some .closeConversation := by
  rw [← effect_eq_close_iff]
  unfold perform
  dsimp only
  rcases a.effect with _ | _ | _ | _ | _ | _ | _
  case ok.sendMessage =>
    by_cases h : accepts (a.target?.getD "") = true <;> simp [h, Except.toOption]
  all_goals simp [Outcome.failed, Except.toOption]

end Action

/-- An action is fired that asks for the end if it is declared so. -/
theorem Stage.fire_eq_close_iff {setting : Setting} {script : Conversation} {name : String}
    {supplied : Supplied} {s : Stage} :
    (s.fire setting script.actions name supplied).1 = some .closeConversation ↔
      script.closes name = true := by
  unfold fire Action.performNamed Conversation.closes
  cases script.actions.find? (·.name == name) with
  | none => simp [Action.Outcome.failed, Except.toOption]
  | some a => simp [Action.perform_eq_close_iff, Action.effect?_supply]

/-- What an action that is fired leaves tells whether it asks for the end. -/
theorem Stage.closes_iff_of_fire {setting : Setting} {script : Conversation} {name : String}
    {supplied : Supplied} {s s' : Stage} {request? : Option Request}
    (h : s.fire setting script.actions name supplied = (request?, s')) :
    (Moment.fired name).closes script = true ↔ request? = some .closeConversation := by
  have hfire : (s.fire setting script.actions name supplied).1 = some .closeConversation ↔ _ :=
    fire_eq_close_iff
  rw [Moment.closes, ← hfire, h]

theorem Stage.followUp_carryOut_eq_close_iff {setting : Setting} {script : Conversation}
    {k : Clock} {c : Command} {s : Stage} :
    (s.carryOut setting script.actions k c).followUp = .request .closeConversation ↔
      (Moment.tag c).closes script = true := by
  cases c with
  | perform name supplied =>
    have hfire : (s.fire setting script.actions name supplied).1 = some .closeConversation ↔ _ :=
      fire_eq_close_iff
    rw [Moment.closes, ← hfire, carryOut]
    dsimp only
    cases (s.fire setting script.actions name supplied).1 <;> simp
  | changeSprite set sprite =>
    rw [carryOut]
    dsimp only
    cases (s.portrait setting set sprite).1 <;> simp [Moment.closes]
  | _ => simp [carryOut, Moment.closes]

/-! ## Places and strides -/

/-- Where the main performance stands in its script: which dialogue it is in, and how many sentences
of it have been shown. -/
inductive Place
  | idle
  /-- The sentence that was shown last is being revealed. -/
  | revealing (script : Conversation) (d : Dialogue) (said : Nat)
  /-- The sentence that was shown last is whole. -/
  | waiting (script : Conversation) (d : Dialogue) (said : Nat)
  /-- The choices have been offered. -/
  | choosing (script : Conversation) (d : Dialogue) (said : Nat)
  /-- There are actions to fire at once, and then somewhere to go. -/
  | cued (script : Conversation) (d : Dialogue) (said : Nat) (cue : Cue)

namespace Place

/-- Nothing has to be done at once. -/
inductive Rests (script : Conversation) (d : Dialogue) (said : Nat) : Place → Prop
  | revealing : Rests script d said (revealing script d said)
  | waiting : Rests script d said (waiting script d said)
  | choosing : Rests script d said (choosing script d said)

/-- What an operation gives the player to do. Only one that waits is asked to go on, and only a
choice that is offered can be selected. -/
def ask : Operation → Place → Place
  | .next, waiting script d said => cued script d said ⟨[], .onward⟩
  | .select index, choosing script d said =>
    match d.choices[index]? with
    | some c => cued script d said ⟨[], .choice index c⟩
    | none => choosing script d said
  | .stop, revealing script d said | .stop, waiting script d said
  | .stop, choosing script d said => cued script d said ⟨[], .ending .stopped⟩
  | _, p => p

/-- What takes the main performance from one place to another, for the variables as they stand. -/
inductive Stride (vars : Variables) : Place → Option Moment → Place → Prop
  /-- What happens elsewhere, and time that passes, is none. -/
  | stay {p : Place} : Stride vars p none p
  /-- A request to end is carried out. -/
  | obey {p : Place} {script : Conversation} {d : Dialogue} {said : Nat}
    (hp : Rests script d said p) : Stride vars p none (cued script d said ⟨[], .ending .routed⟩)
  /-- A sound conversation begins with the dialogue that its conditions say. -/
  | begun {name : String} {script : Conversation} {d : Dialogue} (hs : script.Sound)
    (hd : (script.startingPoint vars).value = some d) :
    Stride vars idle (some (.begun name script d)) (cued script d 0 ⟨[], .onward⟩)
  /-- The sentence is shown that comes after those shown so far. -/
  | shown {script : Conversation} {d : Dialogue} {said : Nat} {raw : String}
    (hs : d.sentences[said]? = some raw) :
    Stride vars (cued script d said ⟨[], .onward⟩)
      (some (.shown d said (Reading.ofText vars raw).sentence)) (revealing script d (said + 1))
  | letter {script : Conversation} {d : Dialogue} {said : Nat} :
    Stride vars (revealing script d said) (some .letter) (revealing script d said)
  | tag {script : Conversation} {d : Dialogue} {said : Nat} {c : Command}
    (hc : (Moment.tag c).closes script = false) :
    Stride vars (revealing script d said) (some (.tag c)) (revealing script d said)
  /-- A tag asks for the end. -/
  | lastTag {script : Conversation} {d : Dialogue} {said : Nat} {c : Command}
    (hc : (Moment.tag c).closes script = true) :
    Stride vars (revealing script d said) (some (.tag c))
      (cued script d said ⟨[], .ending .asked⟩)
  /-- A sentence is whole, and a dialogue that proceeds by itself goes on at once. -/
  | whole {script : Conversation} {d : Dialogue} {said : Nat} :
    Stride vars (revealing script d said) (some .whole)
      (if d.autoProceed then cued script d said ⟨[], .onward⟩ else waiting script d said)
  /-- Where the sentences are exhausted and there are no choices, the next dialogue is entered. -/
  | link {script : Conversation} {d e : Dialogue} {said : Nat} {id : Int32}
    (hs : d.sentences.length ≤ said) (hc : d.choices = []) (hn : d.next? = some id)
    (he : script.dialogue? id = some e) :
    Stride vars (cued script d said ⟨[], .onward⟩) (some (.entered e))
      (cued script e 0 ⟨[], .onward⟩)
  /-- Where the sentences are exhausted and there are choices, they are offered. -/
  | offered {script : Conversation} {d : Dialogue} {said : Nat}
    (hs : d.sentences.length ≤ said) (hc : d.choices ≠ []) :
    Stride vars (cued script d said ⟨[], .onward⟩) (some (.offered d)) (choosing script d said)
  | chosen {script : Conversation} {d : Dialogue} {said index : Nat} {c : Choice}
    (hc : d.choices[index]? = some c) :
    Stride vars (cued script d said ⟨[], .choice index c⟩) (some (.chosen index c))
      (cued script d said ⟨c.actions, c.goal⟩)
  /-- Where the sentences are exhausted and there is nothing else, the actions of the dialogue are
  due, and then the end. -/
  | concluded {script : Conversation} {d : Dialogue} {said : Nat}
    (hs : d.sentences.length ≤ said) (hc : d.choices = []) (hn : d.next? = none) :
    Stride vars (cued script d said ⟨[], .onward⟩) (some (.concluded d))
      (cued script d said ⟨d.onFinished, .ending .exhausted⟩)
  | fired {script : Conversation} {d : Dialogue} {said : Nat} {a : String} {as : List String}
    {g : Goal} (hc : (Moment.fired a).closes script = false) :
    Stride vars (cued script d said ⟨a :: as, g⟩) (some (.fired a)) (cued script d said ⟨as, g⟩)
  /-- An action asks for the end. -/
  | lastAction {script : Conversation} {d : Dialogue} {said : Nat} {a : String} {as : List String}
    {g : Goal} (hc : (Moment.fired a).closes script = true) :
    Stride vars (cued script d said ⟨a :: as, g⟩) (some (.fired a))
      (cued script d said ⟨[], .ending .asked⟩)
  /-- The dialogue is entered that a choice leads to. -/
  | follow {script : Conversation} {d e : Dialogue} {said : Nat} {id : Int32}
    (he : script.dialogue? id = some e) :
    Stride vars (cued script d said ⟨[], .link id⟩) (some (.entered e))
      (cued script e 0 ⟨[], .onward⟩)
  | ended {script : Conversation} {d : Dialogue} {said : Nat} {name : String} {why : Ending} :
    Stride vars (cued script d said ⟨[], .ending why⟩) (some (.ended name why)) idle

end Place

/-! ## Where a session stands -/

/-- Where a performance stands. -/
def Performance.place (q : Performance) : Option Cue → Place
  | some cue => .cued q.script q.dialogue q.said cue
  | none =>
    match q.phase with
    | .revealing _ => .revealing q.script q.dialogue q.said
    | .settled => .waiting q.script q.dialogue q.said
    | .choosing => .choosing q.script q.dialogue q.said

/-- Where the main performance stands. -/
def Lead.place (l : Lead) : Place :=
  match l.player.playing with
  | some q => q.place l.cue?
  | none => .idle

theorem Lead.place_of_playing {p : Player} {q : Performance} (h : p.playing = some q)
    (cue? : Option Cue) (s : Stage) : (Lead.mk p cue? s).place = q.place cue? := by
  rw [Lead.place, h]

theorem Performance.place_of_revealing {q : Performance} {r : Reveal} (h : q.phase = .revealing r) :
    q.place none = .revealing q.script q.dialogue q.said := by
  rw [place, h]

theorem Performance.rests_place (q : Performance) :
    Place.Rests q.script q.dialogue q.said (q.place none) := by
  unfold place
  dsimp only
  split
  · exact .revealing
  · exact .waiting
  · exact .choosing

/-- What is done in the main performance is a stride. -/
theorem Lead.Act.stride {setting : Setting} {o : Operation} {l l' : Lead}
    {m? : Option Moment} (h : Lead.Act setting o l m? l') :
    Place.Stride l.stage.vars l.place m? l'.place := by
  cases h with
  | say hq hp ho =>
    rw [Lead.place_of_playing hq, Lead.of, Lead.place_of_playing (Player.playing_say ..)]
    exact .shown (Dialogue.outlook_eq_sentence ho)
  | elapse hq hp ho =>
    rw [Lead.place_of_playing hq, Performance.place_of_revealing hp]
    exact .stay
  | letter hq hp hr =>
    rw [Lead.place_of_playing hq, Performance.place_of_revealing hp]
    exact .letter
  | tag hq hp hr hd hf =>
    rw [Lead.place_of_playing hq, Performance.place_of_revealing hp, Lead.of,
      Lead.place_of_playing ((Player.playing_followUp hf _ _).trans (Player.playing_put ..)),
      Performance.place_of_revealing rfl]
    exact .tag (eq_false_of_ne_true fun hc => hf (hd ▸ Stage.followUp_carryOut_eq_close_iff.2 hc))
  | lastTag hq hp hr hd hf =>
    rw [Lead.place_of_playing hq, Performance.place_of_revealing hp]
    exact .lastTag (Stage.followUp_carryOut_eq_close_iff.1 (hd ▸ hf))
  | @whole q r r' p s hq hp hr =>
    have hplace : Lead.place ⟨p.put { q with phase := .settled }, q.afterwards,
        s.observe [.revealed .main]⟩ =
          if q.dialogue.autoProceed then .cued q.script q.dialogue q.said ⟨[], .onward⟩
          else .waiting q.script q.dialogue q.said := by
      unfold Performance.afterwards
      split <;> rfl
    rw [Lead.place_of_playing hq, Performance.place_of_revealing hp, hplace]
    exact .whole
  | link hq hp ho hd =>
    obtain ⟨hs, hc, hn⟩ := Dialogue.outlook_eq_link ho
    rw [Lead.place_of_playing hq]
    exact .link hs hc hn hd
  | offer hq hp ho =>
    obtain ⟨hs, hc⟩ := Dialogue.outlook_eq_choices ho
    rw [Lead.place_of_playing hq]
    exact .offered hs hc
  | choose hq hp hc =>
    rw [Lead.place_of_playing hq, Lead.place_of_playing hq]
    exact .chosen hc
  | conclude hq hp ho =>
    obtain ⟨hs, hc, hn⟩ := Dialogue.outlook_eq_ending ho
    rw [Lead.place_of_playing hq, Lead.place_of_playing hq]
    exact .concluded hs hc hn
  | fire hq hp hf =>
    rw [Lead.place_of_playing hq, Lead.place_of_playing hq]
    exact .fired (eq_false_of_ne_true fun hc => by cases (Stage.closes_iff_of_fire hf).1 hc)
  | request hq hp hf hr =>
    rw [Lead.place_of_playing hq, Lead.of,
      Lead.place_of_playing ((Player.playing_answer hr _ _).trans hq)]
    exact .fired (eq_false_of_ne_true fun hc =>
      hr (Option.some.inj ((Stage.closes_iff_of_fire hf).1 hc)))
  | lastAction hq hp hf =>
    rw [Lead.place_of_playing hq, Lead.place_of_playing hq]
    exact .lastAction ((Stage.closes_iff_of_fire hf).2 rfl)
  | follow hq hp hd =>
    rw [Lead.place_of_playing hq]
    exact .follow hd
  | note => exact .stay
  | @obey q rest p s hq hr =>
    rw [Lead.place_of_playing hq, Lead.place_of_playing hq]
    exact .obey q.rests_place
  | finish hq =>
    rw [Lead.place_of_playing hq, Lead.of, Player.stop_of_playing hq]
    exact .ended

namespace Scene

/-- **Each step is a stride of the main performance**, or none. -/
theorem Step.stride {o : Operation} {x y : Scene} {k? : Option Mark} (hx : x.Sound)
    (h : Step o x k? y) :
    Place.Stride x.session.stage.vars x.lead.place (momentOn .main k?) y.lead.place := by
  cases h with
  | lead h =>
    rw [momentOn_map_self]
    exact h.stride
  | ambient hb h =>
    rw [momentOn_map_of_ne (by simp [Background.channel])]
    exact .stay
  | begin hl hb hp hc hd =>
    rw [show x.lead.place = .idle by rw [Lead.place, Scene.lead, hp]]
    exact .begun (hx.library _ _ hl) hd
  | beginBackground | skipId | forget | take | theme | drop | vary | load | drain => exact .stay

/-- What an operation gives the player to do depends on where the main performance stands. -/
theorem place_asked (x : Playback) (o : Operation) :
    (asked x o).lead.place = (of x).lead.place.ask o := by
  have hof : ∀ {q}, x.session.player.playing = some q → (of x).lead.place = q.place none :=
    fun hq => Lead.place_of_playing hq ..
  have hasked : ∀ {q}, x.session.player.playing = some q →
      (asked x o).lead.place = q.place (x.session.player.cueFor o) :=
    fun hq => Lead.place_of_playing hq ..
  cases hq : x.session.player.playing with
  | none =>
    have hidle : ∀ y : Scene, y.session = x.session → y.lead.place = .idle := by
      intro y hy
      rw [Lead.place, lead, hy, hq]
    rw [hidle (of x) rfl, hidle (asked x o) rfl]
    cases o <;> rfl
  | some q =>
    rw [hof hq, hasked hq]
    unfold Performance.place
    cases hp : q.phase with
    | revealing r => cases o <;> simp [Player.cueFor, hq, hp, Place.ask]
    | settled => cases o <;> simp [Player.cueFor, hq, hp, Place.ask]
    | choosing =>
      cases o with
      | select index =>
        cases hc : q.dialogue.choices[index]? <;>
          simp [Player.cueFor, hq, hp, hc, Place.ask]
      | _ => simp [Player.cueFor, hq, hp, Place.ask]

/-- A step, and a stride of the main performance for the variables as they stand. -/
def Tread (o : Operation) (x : Scene) (k? : Option Mark) (y : Scene) : Prop :=
  Step o x k? y ∧
    Place.Stride x.session.stage.vars x.lead.place (momentOn .main k?) y.lead.place

theorem treads_of_path {o : Operation} {x y : Scene} {ks : List (Option Mark)}
    (h : Path (Step o) x ks y) (hx : x.Sound) : Path (Tread o) x ks y := by
  induction h with
  | refl => exact .refl
  | cons hstep _ ih => exact .cons ⟨hstep, hstep.stride hx⟩ (ih (hstep.sound hx))

end Scene

end Colloquy
