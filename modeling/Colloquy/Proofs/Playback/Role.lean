import Colloquy.Proofs.Playback.Record
import Colloquy.Proofs.Script.Clean

/-!
# Proofs/Playback/Role — on every text box, a script is kept to

What a performer still has to do can be read off a session (`Role.view`): the script, the beats of a
sentence that are to come, and the actions that are to be fired. Each step is a moment that the role
on its text box allows (`Role.follows_view`), and what a role allows keeps to its script
(`Role.Next.keepsTo`), for it has nothing to do but what the script speaks and lists
(`Role.Grounded`). So on every text box, whatever is shown while a script is performed is spoken by
it, and whatever is fired is fired by it (`Playback.Plays.keepsTo`).
-/

namespace Colloquy

open Markup

/-! ## While a script is performed -/

namespace Moment

/-- The action that a moment fires, and what is supplied for it. -/
def firing? : Moment → Option (String × Supplied)
  | tag (.perform name supplied) => some (name, supplied)
  | fired name => some (name, .nothing)
  | _ => none

/-- A moment comes about while a script is performed. -/
def During (ms : List Moment) (script : Conversation) (m : Moment) : Prop :=
  ∃ (a : List Moment) (name : String) (d : Dialogue) (b r : List Moment),
    ms = a ++ .begun name script d :: (b ++ m :: r) ∧ ∀ k ∈ b, k.bounds = false

/-- A moment has its sentence and its actions from a script. -/
structure KeepsTo (m : Moment) (script : Conversation) : Prop where
  speaks : ∀ d place s, m = .shown d place s → script.Speaks s
  fires : ∀ name supplied, m.firing? = some (name, supplied) → script.Fires name supplied

end Moment

/-! ## Roles -/

/-- What a performer has to do: the script, the beats that are to come of a sentence, and the
actions that are to be fired. -/
structure Role where
  script : Conversation
  beats : List Beat
  actions : List String

namespace Role

/-- A role in which nothing is to be done at once. -/
def rest (script : Conversation) : Role := ⟨script, [], []⟩

/-- The moments that a role allows, and the role then. -/
inductive Next : Option Role → Moment → Option Role → Prop
  | begun {name : String} {script : Conversation} {d : Dialogue} :
    Next none (.begun name script d) (some (rest script))
  | shown {c : Conversation} {d : Dialogue} {place : Nat} {s : Sentence} (hs : c.Speaks s) :
    Next (some (rest c)) (.shown d place s) (some ⟨c, s.beats, []⟩)
  | letter {c : Conversation} {x : Char} {bs : List Beat} :
    Next (some ⟨c, .character x :: bs, []⟩) .letter (some ⟨c, bs, []⟩)
  | tag {c : Conversation} {k : Command} {bs : List Beat} :
    Next (some ⟨c, .tag k :: bs, []⟩) (.tag k) (some ⟨c, bs, []⟩)
  | whole {c : Conversation} : Next (some (rest c)) .whole (some (rest c))
  | entered {c : Conversation} {d : Dialogue} : Next (some (rest c)) (.entered d) (some (rest c))
  | offered {c : Conversation} {d : Dialogue} : Next (some (rest c)) (.offered d) (some (rest c))
  | chosen {c : Conversation} {d : Dialogue} {index : Nat} {choice : Choice}
    (hd : d ∈ c.dialogues) (hc : choice ∈ d.choices) :
    Next (some (rest c)) (.chosen index choice) (some ⟨c, [], choice.actions⟩)
  | concluded {c : Conversation} {d : Dialogue} (hd : d ∈ c.dialogues) :
    Next (some (rest c)) (.concluded d) (some ⟨c, [], d.onFinished⟩)
  /-- An action is fired, and the rest are still to be, unless it is to be the last. -/
  | fired {c : Conversation} {a : String} {as bs : List String} (hb : bs = as ∨ bs = []) :
    Next (some ⟨c, [], a :: as⟩) (.fired a) (some ⟨c, [], bs⟩)
  | ended {r : Role} {name : String} {why : Ending} : Next (some r) (.ended name why) none

/-- All that a role has to do is in its script: its tags are those of sentences that the script
speaks, and its actions are listed there. -/
structure Grounded (r : Role) : Prop where
  tags : ∀ k, .tag k ∈ r.beats → ∃ s, r.script.Speaks s ∧ .tag k ∈ s.beats
  actions : ∀ a ∈ r.actions, r.script.Lists a

theorem grounded_rest (script : Conversation) : (rest script).Grounded :=
  ⟨fun _ h => absurd h List.not_mem_nil, List.forall_mem_nil _⟩

namespace Next

variable {r : Role} {u : Option Role} {m : Moment}

/-- **What a grounded role allows keeps to the script.** -/
theorem keepsTo (h : Next (some r) m u) (hr : r.Grounded) : m.KeepsTo r.script := by
  cases h with
  | @shown c d place s hs =>
    refine ⟨fun _ _ _ heq => ?_, fun _ _ hfires => by cases hfires⟩
    cases heq
    exact hs
  | @tag c k bs =>
    refine ⟨fun _ _ _ heq => (by cases heq), fun name supplied hk => ?_⟩
    obtain ⟨s, hs, htag⟩ := hr.tags k (List.mem_cons_self ..)
    cases k <;> cases hk
    exact .tag hs htag
  | @fired c a as bs hb =>
    refine ⟨fun _ _ _ heq => (by cases heq), fun _ _ heq => ?_⟩
    cases heq
    exact .listed (hr.actions a (List.mem_cons_self ..))
  | letter | whole | entered | offered | chosen | concluded | ended =>
    exact ⟨fun _ _ _ heq => (by cases heq), fun _ _ heq => by cases heq⟩

/-- It leaves the role grounded, in the same script, unless the script ends. -/
theorem grounded (h : Next (some r) m u) (hr : r.Grounded) (hm : m.bounds = false) :
    ∃ r', u = some r' ∧ r'.script = r.script ∧ r'.Grounded := by
  cases h with
  | @shown c d place s hs =>
    exact ⟨_, rfl, rfl, fun k hk => ⟨s, hs, hk⟩, List.forall_mem_nil _⟩
  | letter | tag =>
    exact ⟨_, rfl, rfl, fun k hk => hr.tags k (List.mem_cons_of_mem _ hk), List.forall_mem_nil _⟩
  | @whole c | @entered c d | @offered c d => exact ⟨_, rfl, rfl, grounded_rest c⟩
  | @chosen c d index choice hd hc =>
    exact ⟨_, rfl, rfl, (grounded_rest c).tags, fun a ha => ⟨d, hd, .inr ⟨choice, hc, ha⟩⟩⟩
  | @concluded c d hd =>
    exact ⟨_, rfl, rfl, (grounded_rest c).tags, fun a ha => ⟨d, hd, .inl ha⟩⟩
  | @fired c a as bs hb =>
    refine ⟨_, rfl, rfl, hr.tags, fun x hx => hr.actions x (List.mem_cons_of_mem _ ?_)⟩
    obtain rfl | rfl := hb
    · exact hx
    · cases hx
  | ended => cases hm

end Next

/-- As long as a script does not end, its performer has a grounded role in it. -/
theorem grounded_of_path {ms : List Moment} {u : Option Role} :
    ∀ {r : Role}, Path Next (some r) ms u → r.Grounded → (∀ k ∈ ms, k.bounds = false) →
      ∃ r', u = some r' ∧ r'.script = r.script ∧ r'.Grounded := by
  induction ms with
  | nil =>
    intro r h hr _
    cases h
    exact ⟨r, rfl, rfl, hr⟩
  | cons m ms ih =>
    intro r h hr hms
    obtain ⟨hm, hlater⟩ := List.forall_mem_cons.1 hms
    cases h with
    | cons hnext h =>
      obtain ⟨r', rfl, hscript, hr'⟩ := hnext.grounded hr hm
      obtain ⟨r'', hu, hscript', hr''⟩ := ih h hr' hlater
      exact ⟨r'', hu, hscript'.trans hscript, hr''⟩

/-- **Whatever comes about while a script is performed keeps to it**, where roles are followed. -/
theorem keepsTo_of_path {ms : List Moment} {t u : Option Role} (h : Path Next t ms u)
    {script : Conversation} {m : Moment} (hm : m.During ms script) : m.KeepsTo script := by
  obtain ⟨a, name, d, b, r, rfl, hb⟩ := hm
  obtain ⟨v, -, h⟩ := h.split
  cases h with
  | cons hbegun h =>
    cases hbegun
    obtain ⟨w, hwithin, h⟩ := h.split
    obtain ⟨r', rfl, hscript, hr'⟩ := grounded_of_path hwithin (grounded_rest script) hb
    cases h with
    | cons hnext _ =>
      have hkeeps := hnext.keepsTo hr'
      rwa [hscript] at hkeeps

end Role

/-! ## The role of each text box -/

/-- The beats that are to come of the sentence that is being revealed. -/
def Performance.pending (q : Performance) : List Beat :=
  match q.phase with
  | .revealing r => r.pending
  | .settled | .choosing => []

/-- What a player has to do in the main performance. -/
def Player.role (p : Player) (cue? : Option Cue) : Option Role :=
  p.playing.map fun q => ⟨q.script, q.pending, (cue?.map (·.actions)).getD []⟩

/-- What a background conversation has to do. -/
def Background.role (b : Background) : Option Role :=
  match b.phase with
  | .revealing r => some ⟨b.script, r.pending, []⟩
  | .holding _ => some (.rest b.script)
  | .finished => none

/-- What a performer has to do is a view. -/
def Role.view : View (Option Role) := ⟨Player.role, Background.role, none⟩

namespace Performance

theorem pending_of_revealing {q : Performance} {r : Reveal} (h : q.phase = .revealing r) :
    q.pending = r.pending := by
  rw [pending, h]

theorem pending_of_reveal? {q : Performance} (h : q.reveal? = none) : q.pending = [] := by
  unfold reveal? at h
  unfold pending
  split at h
  · cases h
  · rename_i hp
    split
    · exact absurd ‹_› (hp _)
    · rfl
    · rfl

theorem reveal?_of_settled {q : Performance} (h : q.phase = .settled) : q.reveal? = none := by
  rw [reveal?, h]

theorem reveal?_of_choosing {q : Performance} (h : q.phase = .choosing) : q.reveal? = none := by
  rw [reveal?, h]

/-- What is said in a performance is spoken by its script. -/
theorem Sound.speaks {q : Performance} (hq : q.Sound) {raw : String}
    (ho : q.dialogue.outlook q.said = .sentence raw) (vars : Variables) :
    q.script.Speaks (Reading.ofText vars raw).sentence :=
  ⟨q.dialogue, hq.dialogue, raw, List.mem_of_getElem? (Dialogue.outlook_eq_sentence ho), vars, rfl⟩

end Performance

theorem Background.Sound.speaks {b : Background} (hb : b.Sound) {raw : String}
    (ho : b.dialogue.ambientOutlook b.said = .sentence raw) (vars : Variables) :
    b.script.Speaks (Reading.ofText vars raw).sentence :=
  ⟨b.dialogue, hb.dialogue, raw,
    List.mem_of_getElem? (Dialogue.outlook_eq_sentence (d := { b.dialogue with choices := [] }) ho),
    vars, rfl⟩

namespace Player

variable {p : Player} {q : Performance}

theorem role_of_reveal {r : Reveal} (hq : p.playing = some q) (hp : q.phase = .revealing r)
    (cue? : Option Cue) :
    p.role cue? = some ⟨q.script, r.pending, (cue?.map (·.actions)).getD []⟩ := by
  rw [role, hq, ← Performance.pending_of_revealing hp]
  rfl

theorem role_of_cue (hq : p.playing = some q) (hr : q.reveal? = none) (as : List String)
    (g : Goal) : p.role (some ⟨as, g⟩) = some ⟨q.script, [], as⟩ := by
  rw [role, hq, Option.map_some, Performance.pending_of_reveal? hr]
  rfl

theorem role_of_rest (hq : p.playing = some q) (hr : q.reveal? = none) :
    p.role none = some (.rest q.script) := by
  rw [role, hq, Option.map_some, Performance.pending_of_reveal? hr]
  rfl

end Player

namespace Role

variable {c : Conversation} {r r' : Reveal}

theorem next_letter (h : r.step = (.character, r')) :
    Next (some ⟨c, r.pending, []⟩) .letter (some ⟨c, r'.pending, []⟩) := by
  obtain ⟨b, hp, hb⟩ := Reveal.pending_of_step h rfl
  cases b with
  | character x => exact hp ▸ .letter
  | tag k => cases hb

theorem next_tag {k : Command} (h : r.step = (.tag k, r')) :
    Next (some ⟨c, r.pending, []⟩) (.tag k) (some ⟨c, r'.pending, []⟩) := by
  obtain ⟨b, hp, hb⟩ := Reveal.pending_of_step h rfl
  cases b with
  | character x => cases hb
  | tag l =>
    cases hb
    exact hp ▸ .tag

theorem next_whole (h : r.step = (.finished, r')) :
    Next (some ⟨c, r.pending, []⟩) .whole (some (rest c)) :=
  (Reveal.pending_of_finished h).symm ▸ .whole

end Role

/-- What is done in the main performance is allowed by the role there. -/
theorem Lead.Act.role {setting : Setting} {o : Operation} {l l' : Lead} {m? : Option Moment}
    (h : Lead.Act setting o l m? l') (hl : ∀ q, l.player.playing = some q → q.Sound) :
    Moves Role.Next (l.player.role l.cue?) m? (l'.player.role l'.cue?) := by
  cases h with
  | @say q raw p s hq hp ho =>
    rw [Player.role_of_cue hq (Performance.reveal?_of_settled hp), Lead.of,
      Player.role_of_reveal (Player.playing_say ..) rfl]
    exact .shown ((hl q hq).speaks ho s.vars)
  | elapse hq hp ho =>
    rw [Player.role_of_reveal hq hp, Player.role_of_reveal (Player.playing_put ..) rfl]
    rfl
  | letter hq hp hr =>
    rw [Player.role_of_reveal hq hp, Player.role_of_reveal (Player.playing_put ..) rfl]
    exact Role.next_letter hr
  | @tag q r r' k p s deed hq hp hr hd hf =>
    have hnext : Role.Next (some ⟨q.script, r.pending, []⟩) _ _ := Role.next_tag hr
    have hplaying := (Player.playing_followUp hf
      (p.put { q with phase := .revealing { r' with clock := deed.clock } }) deed.stage).trans
        (Player.playing_put ..)
    rw [Player.role_of_reveal hq hp, Lead.of, Player.role_of_reveal hplaying rfl]
    exact hnext
  | lastTag hq hp hr hd hf =>
    rw [Player.role_of_reveal hq hp, Player.role_of_reveal (Player.playing_put ..) rfl]
    exact Role.next_tag hr
  | @whole q r r' p s hq hp hr =>
    have hrest :
        (p.put { q with phase := .settled }).role q.afterwards = some (.rest q.script) := by
      unfold Performance.afterwards
      split
      · exact Player.role_of_cue (Player.playing_put ..) rfl ..
      · exact Player.role_of_rest (q := { q with phase := .settled }) (Player.playing_put ..) rfl
    rw [Player.role_of_reveal hq hp, hrest]
    exact Role.next_whole hr
  | @link q id d p s hq hp ho hd =>
    have hmove : (q.move d).reveal? = none := Performance.reveal?_of_settled (q := q.move d) hp
    rw [Player.role_of_cue hq (Performance.reveal?_of_settled hp),
      Player.role_of_cue (Player.playing_put ..) hmove]
    exact .entered
  | @offer q p s hq hp ho =>
    have hrest : (p.put { q with phase := .choosing }).role none = some (.rest q.script) :=
      Player.role_of_rest (q := { q with phase := .choosing }) (Player.playing_put ..) rfl
    rw [Player.role_of_cue hq (Performance.reveal?_of_settled hp)]
    exact hrest ▸ .offered
  | @choose q index choice p s hq hp hc =>
    have hr := Performance.reveal?_of_choosing hp
    rw [Player.role_of_cue hq hr, Player.role_of_cue hq hr]
    exact .chosen (hl q hq).dialogue (List.mem_of_getElem? hc)
  | @conclude q p s hq hp ho =>
    have hr := Performance.reveal?_of_settled hp
    rw [Player.role_of_cue hq hr, Player.role_of_cue hq hr]
    exact .concluded (hl q hq).dialogue
  | fire hq hr hf =>
    rw [Player.role_of_cue hq hr, Player.role_of_cue hq hr]
    exact .fired (.inl rfl)
  | request hq hr hf hc =>
    rw [Player.role_of_cue hq hr, Lead.of,
      Player.role_of_cue ((Player.playing_answer hc _ _).trans hq) hr]
    exact .fired (.inl rfl)
  | lastAction hq hr hf =>
    rw [Player.role_of_cue hq hr, Player.role_of_cue hq hr]
    exact .fired (.inr rfl)
  | follow hq hr hd =>
    rw [Player.role_of_cue hq hr, Player.role_of_cue (Player.playing_put ..) rfl]
    exact .entered
  | note => rfl
  | @obey q rest p s hq hr => rfl
  | finish hq =>
    rw [Lead.of, Player.stop_of_playing hq, Player.role, hq]
    exact .ended

/-- What is done in a background conversation is allowed by its role. -/
theorem Ambient.Act.role {setting : Setting} {o : Operation} {a a' : Ambient} {m? : Option Moment}
    (h : Ambient.Act setting o a m? a') (ha : a.background.Sound) :
    Moves Role.Next a.background.role m? a'.background.role := by
  cases h with
  | @say b x raw s hp ho =>
    rw [Background.role, hp]
    exact .shown (ha.speaks ho s.vars)
  | elapse hp ho | hold hp ho =>
    rw [Background.role, hp]
    rfl
  | letter hp hr =>
    rw [Background.role, hp]
    exact Role.next_letter hr
  | @tag b r r' c s deed hp hr hd hf | @lastTag b r r' c s deed hp hr hd hf =>
    have hnext : Role.Next (some ⟨b.script, r.pending, []⟩) _ _ := Role.next_tag hr
    rw [Background.role, hp]
    exact hnext
  | whole hp hr =>
    rw [Background.role, hp]
    exact Role.next_whole hr
  | @link b x id d s hp ho hd =>
    obtain ⟨anchor, moved, hv⟩ := b.visit_fst false s d
    rw [Ambient.of, hv, Background.role, Background.role, hp]
    exact .entered
  | @finish b s why hp =>
    rw [Ambient.of, Background.finish_of_active hp]
    unfold Background.role
    split
    · exact .ended
    · exact .ended
    · exact absurd ‹_› hp

/-- Being asked for something leaves nobody with actions to fire. -/
theorem Player.role_cueFor (p : Player) (o : Operation) : p.role (p.cueFor o) = p.role none := by
  unfold role cueFor
  cases p.playing with
  | none => rfl
  | some q =>
    cases o with
    | next =>
      dsimp only
      split <;> rfl
    | select index =>
      dsimp only
      split
      · cases q.dialogue.choices[index]? <;> rfl
      · rfl
    | _ => rfl

/-- **Each step is allowed by the role on its text box.** -/
theorem Role.follows_view : Role.view.Follows Role.Next where
  lead h hl := h.role hl
  ambient h ha := h.role ha
  begin p name script d hp := by
    dsimp only [view]
    rw [Player.role, hp, Player.role_of_cue (Player.playing_put ..) rfl]
    exact .begun
  beginBackground b hb := by
    dsimp only [view]
    rw [Background.role, hb]
    exact .begun
  finished b hb := by
    dsimp only [view]
    rw [Background.role, hb]
  theme _ _ _ := rfl
  ask p o := p.role_cueFor o

/-- **On every text box, what comes about while a script is performed keeps to it.** -/
theorem Playback.Plays.keepsTo {library : Library} {setting : Setting} {vars : Variables}
    {acts : Acts} {y : Playback} (h : (Playback.new library setting vars).Plays acts y)
    (hx : (Scene.of (.new library setting vars)).Sound) {c : Channel} {script : Conversation}
    {m : Moment} (hm : m.During (acts.on c) script) : m.KeepsTo script :=
  Role.keepsTo_of_path (h.path_see Role.follows_view c hx) hm

end Colloquy
