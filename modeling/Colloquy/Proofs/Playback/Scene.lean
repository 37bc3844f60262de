import Colloquy.Proofs.Playback.Ambient
import Colloquy.Proofs.Playback.Lead

/-!
# Proofs/Playback/Scene — a session, one thing at a time

`Scene.Step` lists what happens in a session one by one: what is done in the main performance or in
a background conversation, a beginning, a request that is taken up, a change that the game makes. A
step is labelled with the text box and the moment, if it is a moment of any. Every operation is such
steps, one after the other (`Scene.reaches_perform`). That rests on what the steps keep
(`Scene.Sound`): scripts are sound, and no two background conversations have the same text box.
-/

namespace Colloquy

open Markup

/-- A moment on a text box. -/
structure Mark where
  channel : Channel
  moment : Moment
deriving DecidableEq

/-- A session, what is left to do in the main performance, and the events taken before. -/
structure Scene where
  session : Session
  cue? : Option Cue
  heard : List Event

namespace Scene

/-- A playback between two operations, when nothing is left to do. -/
def of (x : Playback) : Scene := ⟨x.session, none, x.heard⟩

/-- A playback that is asked for an operation, which may give the player something to do. -/
def asked (x : Playback) (o : Operation) : Scene :=
  ⟨x.session, x.session.player.cueFor o, x.heard⟩

/-- The main performance. -/
def lead (x : Scene) : Lead := ⟨x.session.player, x.cue?, x.session.stage⟩

/-- The scene with another main performance. -/
def withLead (x : Scene) (l : Lead) : Scene :=
  { x with session := x.session.withPlayer (l.player, l.stage), cue? := l.cue? }

/-- The scene with another stage. -/
def withStage (x : Scene) (s : Stage) : Scene := { x with session := { x.session with stage := s } }

/-- The scene with other background conversations. -/
def withBackground (x : Scene) (bs : List Background) (s : Stage) : Scene :=
  { x with session := { x.session with background := bs, stage := s } }

/-- A conversation that begins on the main text box, with a dialogue of its script. -/
def begin (x : Scene) (name : String) (script : Conversation) (d : Dialogue) : Scene :=
  x.withLead ⟨x.session.player.put { name, script, dialogue := d }, some ⟨[], .onward⟩,
    (x.session.stage.startingPoint script).2.report (.conversationStarted name)⟩

/-- A background conversation under the next id, which is on a dialogue of its script and has moved
to the anchor there. -/
def newcomer (x : Scene) (name : String) (script : Conversation) (d : Dialogue) :
    Background × Stage :=
  let b : Background := { id := x.session.nextId, name, script, dialogue := d, phase := .holding 0 }
  b.visit true
    ((x.session.stage.startingPoint script).2.report (.backgroundStarted x.session.nextId name)) d

/-- A conversation that begins in the background. -/
def beginBackground (x : Scene) (name : String) (script : Conversation) (d : Dialogue) : Scene :=
  { x with
    session :=
      { x.session with
        background := x.session.background ++ [(x.newcomer name script d).1]
        nextId := x.session.nextId + 1
        stage := (x.newcomer name script d).2 } }

/-- One thing that happens in a session in the course of an operation. -/
inductive Step (o : Operation) : Scene → Option Mark → Scene → Prop
  | lead {x : Scene} {m? : Option Moment} {l : Lead}
    (h : Lead.Act x.session.setting o x.lead m? l) :
    Step o x (m?.map (.mk .main)) (x.withLead l)
  | ambient {x : Scene} {before after : List Background} {b : Background} {m? : Option Moment}
    {a : Ambient} (hb : x.session.background = before ++ b :: after)
    (h : Ambient.Act x.session.setting o ⟨b, x.session.stage⟩ m? a) :
    Step o x (m?.map (.mk b.channel)) (x.withBackground (before ++ a.background :: after) a.stage)
  /-- A stored conversation begins where its conditions say, as none is performed. -/
  | begin {x : Scene} {name : String} {script : Conversation} {d : Dialogue}
    (hl : x.session.library.get? name = some script) (hb : script.background = false)
    (hp : x.session.player.playing = none) (hc : x.cue? = none)
    (hd : (script.startingPoint x.session.stage.vars).value = some d) :
    Step o x (some ⟨.main, .begun name script d⟩) (x.begin name script d)
  /-- A stored conversation begins in the background, under an id that is new. -/
  | beginBackground {x : Scene} {name : String} {script : Conversation} {d : Dialogue}
    (hl : x.session.library.get? name = some script) (hb : script.background = true)
    (hd : (script.startingPoint x.session.stage.vars).value = some d) :
    Step o x (some ⟨.background x.session.nextId, .begun name script d⟩)
      (x.beginBackground name script d)
  /-- An id is used up. -/
  | skipId {x : Scene} :
    Step o x none { x with session := { x.session with nextId := x.session.nextId + 1 } }
  /-- A background conversation that is over is left out. -/
  | forget {x : Scene} {before after : List Background} {b : Background}
    (hb : x.session.background = before ++ b :: after) (hp : b.phase = .finished) :
    Step o x none (x.withBackground (before ++ after) x.session.stage)
  /-- A request is taken up that does not concern the main performance. -/
  | take {x : Scene} {r : Request} {rest : List Request}
    (hr : x.session.stage.requests = r :: rest)
    (hc : r = .closeConversation → x.session.player.playing = none) :
    Step o x none (x.withStage { x.session.stage with requests := rest })
  | theme {x : Scene} {name : String} {rest : List Request}
    (hr : x.session.stage.requests = .changeTheme name :: rest) :
    Step o x none (x.withLead (.of x.cue?
      (x.session.player.changeTheme name { x.session.stage with requests := rest })))
  | drop {x : Scene} : Step o x none (x.withStage { x.session.stage with requests := [] })
  /-- The game changes the variables. -/
  | vary {x : Scene} {v : VariableCall} (ho : o = .vary v) :
    Step o x none (x.withStage (x.session.stage.vary v))
  /-- The game adds a conversation. -/
  | load {x : Scene} {name text : String} {library : Library} (ho : o = .load name text)
    (hl : (x.session.library.load name text).result = .ok library) :
    Step o x none { x with session := { x.session with library } }
  /-- The game takes the events. -/
  | drain {x : Scene} (ho : o = .drain) :
    Step o x none
      { x.withStage { x.session.stage with events := [] } with
        heard := x.heard ++ x.session.stage.events }

/-! ## What steps keep -/

/-- What performers rely on in a session. -/
structure Sound (x : Scene) : Prop where
  library : x.session.library.Sound
  playing : ∀ q, x.session.player.playing = some q → q.Sound
  background : ∀ b ∈ x.session.background, b.Sound
  /-- Background conversations have text boxes of their own. -/
  nodup_ids : (x.session.background.map (·.id)).Nodup
  id_lt : ∀ b ∈ x.session.background, b.id < x.session.nextId

end Scene

/-- What is done in the main performance keeps to the script, and to its dialogues. -/
theorem Lead.Act.sound {setting : Setting} {o : Operation} {l l' : Lead}
    {m? : Option Moment} (h : Lead.Act setting o l m? l')
    (hl : ∀ q, l.player.playing = some q → q.Sound) :
    ∀ q, l'.player.playing = some q → q.Sound := by
  have hput : ∀ {p : Player} {q r : Performance}, p.playing = some q →
      (∀ q, p.playing = some q → q.Sound) → r.script = q.script → r.dialogue = q.dialogue →
        r.Sound := by
    intro p q r hq hp hscript hdialogue
    exact ⟨hscript ▸ (hp q hq).script, hscript ▸ hdialogue ▸ (hp q hq).dialogue⟩
  intro r hr
  cases h with
  | say hq hp ho =>
    rw [Lead.of, Player.playing_say] at hr
    cases hr
    exact hput hq hl rfl rfl
  | elapse hq | letter hq | lastTag hq | whole hq | offer hq =>
    cases hr
    exact hput hq hl rfl rfl
  | tag hq hp hstep hd hf =>
    rw [Lead.of, Player.playing_followUp hf] at hr
    cases hr
    exact hput hq hl rfl rfl
  | link hq hp ho hd | follow hq hp hd =>
    cases hr
    exact ⟨(hl _ hq).script, (Conversation.mem_of_dialogue? hd).1⟩
  | choose | conclude | fire | lastAction | note | obey => exact hl r hr
  | request hq hp hf hc =>
    rw [Lead.of, Player.playing_answer hc] at hr
    exact hl r hr
  | finish hq =>
    rw [Lead.of, Player.stop_of_playing hq] at hr
    cases hr

/-- What is done in a background conversation keeps to the script, to its dialogues, and to its text
box. -/
theorem Ambient.Act.sound {setting : Setting} {o : Operation} {a a' : Ambient}
    {m? : Option Moment} (h : Ambient.Act setting o a m? a') (ha : a.background.Sound) :
    a'.background.Sound ∧ a'.background.id = a.background.id := by
  cases h with
  | link hp ho hd =>
    rename_i b x id d s
    obtain ⟨anchor, moved, hv⟩ := b.visit_fst false s d
    rw [Ambient.of, hv]
    exact ⟨⟨ha.script, (Conversation.mem_of_dialogue? hd).1⟩, rfl⟩
  | finish why hp =>
    rw [Ambient.of, Background.finish_of_active hp]
    exact ⟨⟨ha.script, ha.dialogue⟩, rfl⟩
  | _ => exact ⟨⟨ha.script, ha.dialogue⟩, rfl⟩

namespace Scene

theorem newcomer_fst (x : Scene) (name : String) (script : Conversation) (d : Dialogue) :
    ∃ anchor moved, (x.newcomer name script d).1 =
      { id := x.session.nextId, name, script, dialogue := d, anchor, moved, phase := .holding 0 } :=
  Background.visit_fst true _ _ d

/-- **Whatever happens, performers can rely on what they rely on.** -/
theorem Step.sound {o : Operation} {x y : Scene} {m? : Option Mark} (h : Step o x m? y)
    (hx : x.Sound) : y.Sound := by
  obtain ⟨hlib, hplay, hback, hnodup, hlt⟩ := hx
  cases h with
  | lead h => exact ⟨hlib, h.sound hplay, hback, hnodup, hlt⟩
  | @ambient before after b _ a hb h =>
    rw [hb] at hback hnodup hlt
    have hmem : b ∈ before ++ b :: after := List.mem_append_right _ (List.mem_cons_self ..)
    obtain ⟨hsound, hid⟩ := h.sound (hback b hmem)
    have hother : ∀ {P : Background → Prop}, (∀ c ∈ before ++ b :: after, P c) →
        P a.background → ∀ c ∈ before ++ a.background :: after, P c := by
      intro P hP ha c hc
      rcases List.mem_append.1 hc with hc | hc
      · exact hP c (List.mem_append_left _ hc)
      · rcases List.mem_cons.1 hc with rfl | hc
        · exact ha
        · exact hP c (List.mem_append_right _ (List.mem_cons_of_mem _ hc))
    refine ⟨hlib, hplay, hother hback hsound, ?_, hother hlt (hid ▸ hlt b hmem)⟩
    rw [List.map_append, List.map_cons] at hnodup
    rw [withBackground, List.map_append, List.map_cons, hid]
    exact hnodup
  | begin hl hb hp hc hd =>
    refine ⟨hlib, fun q hq => ?_, hback, hnodup, hlt⟩
    cases hq
    exact ⟨hlib _ _ hl, Conversation.mem_of_startingPoint hd⟩
  | @beginBackground name script d hl hb hd =>
    obtain ⟨anchor, moved, hv⟩ := x.newcomer_fst name script d
    have hall : ∀ {P : Background → Prop}, (∀ c ∈ x.session.background, P c) →
        P (x.newcomer name script d).1 →
          ∀ c ∈ (x.beginBackground name script d).session.background, P c := by
      intro P hP ha c hc
      rcases List.mem_append.1 hc with hc | hc
      · exact hP c hc
      · exact (List.mem_singleton.1 hc) ▸ ha
    refine ⟨hlib, hplay, hall hback ?_, ?_, hall (fun c hc => Nat.lt_succ_of_lt (hlt c hc)) ?_⟩
    · rw [hv]
      exact ⟨hlib _ _ hl, Conversation.mem_of_startingPoint hd⟩
    · rw [Scene.beginBackground, List.map_append, List.map_singleton, hv]
      refine List.nodup_append.2 ⟨hnodup, List.pairwise_singleton .., ?_⟩
      intro id hid other hother
      obtain ⟨c, hc, rfl⟩ := List.mem_map.1 hid
      rw [List.mem_singleton.1 hother]
      exact Nat.ne_of_lt (hlt c hc)
    · rw [hv]
      exact Nat.lt_succ_self _
  | skipId => exact ⟨hlib, hplay, hback, hnodup, fun b hb => Nat.lt_succ_of_lt (hlt b hb)⟩
  | @forget before after b hb hp =>
    have hsub : (before ++ after).Sublist x.session.background := by
      rw [hb]
      exact List.Sublist.append_left (List.sublist_cons_self ..) _
    exact ⟨hlib, hplay, fun c hc => hback c (hsub.subset hc), hnodup.sublist (hsub.map _),
      fun c hc => hlt c (hsub.subset hc)⟩
  | load ho hl => exact ⟨hlib.load hl, hplay, hback, hnodup, hlt⟩
  | take | theme | drop | vary | drain => exact ⟨hlib, hplay, hback, hnodup, hlt⟩

theorem sound_of_reaches {o : Operation} {x y : Scene} (h : Reaches (Step o) x y)
    (hx : x.Sound) : y.Sound := by
  obtain ⟨ms, h⟩ := h
  exact h.keeps (fun _ _ _ => Step.sound) hx

/-- Asking does not change what can be relied on. -/
theorem Sound.asked {x : Playback} (hx : (of x).Sound) (o : Operation) : (asked x o).Sound :=
  ⟨hx.library, hx.playing, hx.background, hx.nodup_ids, hx.id_lt⟩

/-- Where nothing has been performed, there is nothing to rely on but the library. -/
theorem sound_new {library : Library} (hl : library.Sound) (setting : Setting) (vars : Variables) :
    (of (.new library setting vars)).Sound :=
  ⟨hl, (fun _ hq => by cases hq), List.forall_mem_nil _, List.nodup_nil, List.forall_mem_nil _⟩

end Scene

end Colloquy
