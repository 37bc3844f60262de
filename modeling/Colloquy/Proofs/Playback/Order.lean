import Colloquy.Proofs.Playback.Observed
import Colloquy.Proofs.Playback.Perform

/-!
# Proofs/Playback/Order — on every text box, things happen in order

What a text box stands ready for can be read off the session (`Scene.score`): whether a conversation
is performed there, and which beats of a sentence are still to come. Each step is a moment that the
score of its text box allows, and leaves the scores of all others as they are.

It is so of whatever is to be seen of performers (a `View`), if it changes with what each of them
does as it may (`View.Follows`): a step changes what is seen on the text box of its moment, and on
no other (`Scene.Step.moves`). The score is one such view (`Score.follows_view`).
-/

namespace Colloquy

open Markup

namespace Score

/-- What a text box stands ready for changes with a moment as the score allows, and without one not
at all. -/
def Moves (t : Score) (m? : Option Moment) (u : Score) : Prop :=
  match m? with
  | none => u = t
  | some m => Next t m u

end Score

/-- What the main text box stands ready for during a performance. -/
def Performance.score (q : Performance) : Score :=
  match q.phase with
  | .revealing r => .revealing q.name r.pending
  | .settled | .choosing => .between q.name

/-- What the main text box stands ready for. -/
def Player.score (p : Player) : Score :=
  match p.playing with
  | some q => q.score
  | none => .silent

/-- What the text box of a background conversation stands ready for. -/
def Background.score (b : Background) : Score :=
  match b.phase with
  | .revealing r => .revealing b.name r.pending
  | .holding _ => .between b.name
  | .finished => .silent

/-! ## Each step is allowed -/

theorem Player.score_of_playing {p : Player} {q : Performance} (h : p.playing = some q) :
    p.score = q.score := by
  rw [score, h]

theorem Performance.name_score (q : Performance) : q.score.name? = some q.name := by
  unfold score
  split <;> rfl

theorem Performance.score_of_reveal {q : Performance} (h : q.reveal? = none) :
    q.score = .between q.name := by
  unfold reveal? at h
  unfold score
  split at h
  · cases h
  · rename_i hp
    split
    · exact absurd ‹_› (hp _)
    · rfl
    · rfl

namespace Reveal

/-- A step that hands something out takes the beat that is next. -/
theorem pending_of_step {r r' : Reveal} {step : RevealStep} (h : r.step = (step, r'))
    (hstep : step.takesBeat = true) : ∃ b, r.pending = b :: r'.pending ∧ step = .ofBeat b := by
  obtain ⟨-, hw⟩ | ⟨-, -, hf⟩ | ⟨b, rest, -, hp, hs, hr⟩ := r.step_cases
  · rw [h] at hw
    cases hw
    cases hstep
  · rw [h] at hf
    cases hf
    cases hstep
  · rw [h] at hs hr
    exact ⟨b, hr ▸ hp, hs⟩

theorem pending_of_finished {r r' : Reveal} (h : r.step = (.finished, r')) : r.pending = [] := by
  obtain ⟨-, hw⟩ | ⟨-, hp, -⟩ | ⟨b, rest, -, -, hs, -⟩ := r.step_cases
  · rw [h] at hw
    cases hw
  · exact hp
  · rw [h] at hs
    cases b <;> cases hs

variable {r r' : Reveal} (name : String)

theorem next_letter (h : r.step = (.character, r')) :
    Score.Next (.revealing name r.pending) .letter (.revealing name r'.pending) := by
  obtain ⟨b, hp, hb⟩ := pending_of_step h rfl
  cases b with
  | character c => exact hp ▸ .letter
  | tag c => cases hb

theorem next_tag {c : Command} (h : r.step = (.tag c, r')) :
    Score.Next (.revealing name r.pending) (.tag c) (.revealing name r'.pending) := by
  obtain ⟨b, hp, hb⟩ := pending_of_step h rfl
  cases b with
  | character d => cases hb
  | tag d =>
    cases hb
    exact hp ▸ .tag

theorem next_whole (h : r.step = (.finished, r')) :
    Score.Next (.revealing name r.pending) .whole (.between name) :=
  (pending_of_finished h).symm ▸ .whole

end Reveal

/-- What is done in the main performance is allowed. -/
theorem Lead.Act.score {setting : Setting} {o : Operation} {l l' : Lead}
    {m? : Option Moment} (h : Lead.Act setting o l m? l') :
    l.player.score.Moves m? l'.player.score := by
  have hbetween : ∀ {p : Player} {q : Performance}, p.playing = some q → q.reveal? = none →
      p.score = .between q.name := by
    intro p q hq hr
    rw [Player.score_of_playing hq, Performance.score_of_reveal hr]
  have hrevealing : ∀ {p : Player} {q : Performance} {r : Reveal}, p.playing = some q →
      q.phase = .revealing r → p.score = .revealing q.name r.pending := by
    intro p q r hq hp
    rw [Player.score_of_playing hq, Performance.score, hp]
  have hnot : ∀ {q : Performance} {phase : Phase}, q.phase = phase →
      (∀ r, phase ≠ .revealing r) → q.reveal? = none := by
    intro q phase hp hphase
    subst hp
    unfold Performance.reveal?
    split
    · exact absurd ‹_› (hphase _)
    · rfl
  cases h with
  | say hq hp ho =>
    rw [Lead.of, Player.score_of_playing (Player.playing_say ..), hbetween hq (hnot hp (by simp))]
    exact .shown
  | elapse hq hp ho =>
    rw [hrevealing hq hp]
    rfl
  | letter hq hp hr =>
    rw [hrevealing hq hp]
    exact Reveal.next_letter _ hr
  | @tag q r r' c p s deed hq hp hr hd hf =>
    have hnext := Reveal.next_tag q.name hr
    rw [hrevealing hq hp, Lead.of,
      Player.score_of_playing ((Player.playing_followUp hf _ _).trans (Player.playing_put ..))]
    exact hnext
  | lastTag hq hp hr hd hf =>
    rw [hrevealing hq hp]
    exact Reveal.next_tag _ hr
  | whole hq hp hr =>
    rw [hrevealing hq hp]
    exact Reveal.next_whole _ hr
  | @link q id d p s hq hp ho hd =>
    have hmove : (q.move d).reveal? = none := hnot hp (by simp)
    rw [hbetween hq (hnot hp (by simp)), hbetween (Player.playing_put ..) hmove]
    exact .entered
  | offer hq hp ho =>
    rw [hbetween hq (hnot hp (by simp))]
    exact .offered
  | choose hq hp hc =>
    rw [hbetween hq (hnot hp (by simp))]
    exact .chosen
  | conclude hq hp ho =>
    rw [hbetween hq (hnot hp (by simp))]
    exact .concluded
  | fire hq hp | lastAction hq hp =>
    rw [hbetween hq hp]
    exact .fired
  | request hq hp hf hr =>
    rw [hbetween hq hp, Lead.of, hbetween ((Player.playing_answer hr _ _).trans hq) hp]
    exact .fired
  | follow hq hp hd =>
    rw [hbetween hq hp]
    exact .entered
  | note | obey => rfl
  | finish hq =>
    rw [Lead.of, Player.stop_of_playing hq]
    refine .ended ?_
    rw [Player.score_of_playing hq, Performance.name_score]

/-- What is done in a background conversation is allowed. -/
theorem Ambient.Act.score {setting : Setting} {o : Operation} {a a' : Ambient}
    {m? : Option Moment} (h : Ambient.Act setting o a m? a') :
    a.background.score.Moves m? a'.background.score := by
  cases h with
  | say hp ho =>
    rw [Background.score, hp]
    exact .shown
  | elapse hp ho | hold hp ho =>
    rw [Background.score, hp]
    rfl
  | letter hp hr =>
    rw [Background.score, hp]
    exact Reveal.next_letter _ hr
  | @tag b r r' c s deed hp hr hd hf | @lastTag b r r' c s deed hp hr hd hf =>
    have hnext := Reveal.next_tag b.name hr
    rw [Background.score, hp]
    exact hnext
  | whole hp hr =>
    rw [Background.score, hp]
    exact Reveal.next_whole _ hr
  | @link b x id d s hp ho hd =>
    obtain ⟨anchor, moved, hv⟩ := b.visit_fst false s d
    rw [Ambient.of, hv, Background.score, Background.score, hp]
    exact .entered
  | @finish b s why hp =>
    rw [Ambient.of, Background.finish_of_active hp]
    refine .ended ?_
    unfold Background.score
    split
    · rfl
    · rfl
    · exact absurd ‹_› hp

/-! ## Text boxes apart -/

/-- The moment that a mark is on a text box. -/
def Mark.on? (c : Channel) (k : Mark) : Option Moment :=
  if k.channel = c then some k.moment else none

@[simp] theorem Mark.on?_self (c : Channel) (m : Moment) : Mark.on? c ⟨c, m⟩ = some m := if_pos rfl

theorem Mark.on?_of_ne {c d : Channel} (h : d ≠ c) (m : Moment) : Mark.on? c ⟨d, m⟩ = none :=
  if_neg h

/-- The moment on a text box, if there is one. -/
def momentOn (c : Channel) (k? : Option Mark) : Option Moment := k?.bind (Mark.on? c)

theorem momentOn_map_self (c : Channel) (m? : Option Moment) :
    momentOn c (m?.map (.mk c)) = m? := by
  cases m? with
  | none => rfl
  | some m => exact Mark.on?_self c m

theorem momentOn_map_of_ne {c d : Channel} (h : d ≠ c) (m? : Option Moment) :
    momentOn c (m?.map (.mk d)) = none := by
  cases m? with
  | none => rfl
  | some m => exact Mark.on?_of_ne h m

/-- What there is on a text box changes with a moment as it may, and without one not at all. -/
def Moves {α : Type} (next : α → Moment → α → Prop) (t : α) (m? : Option Moment) (u : α) : Prop :=
  match m? with
  | none => u = t
  | some m => next t m u

namespace Background

/-- Where ids are apart, no other conversation has the id of one. -/
theorem ne_of_nodup {before after : List Background} {b : Background}
    (h : ((before ++ b :: after).map (·.id)).Nodup) : ∀ c ∈ before ++ after, c.id ≠ b.id := by
  rw [List.map_append, List.map_cons] at h
  obtain ⟨hnot, -⟩ := List.nodup_cons.1 (List.perm_middle.nodup_iff.1 h)
  intro c hc heq
  rw [← List.map_append] at hnot
  exact hnot (heq ▸ List.mem_map_of_mem hc)

section

variable {α : Type} {view : Background → α} {idle : α}

/-- A view of the conversation of an id, or what there is to see without one. -/
def viewOf (view : Background → α) (idle : α) (bs : List Background) (id : Nat) : α :=
  match bs.find? (·.id == id) with
  | some b => view b
  | none => idle

theorem viewOf_of_forall_ne {bs : List Background} {id : Nat} (h : ∀ b ∈ bs, b.id ≠ id) :
    viewOf view idle bs id = idle := by
  have hnone : bs.find? (·.id == id) = none :=
    List.find?_eq_none.2 fun b hb heq => h b hb (eq_of_beq heq)
  rw [viewOf, hnone]

theorem viewOf_append_cons_of_ne {before after : List Background} {b : Background} {id : Nat}
    (h : b.id ≠ id) :
    viewOf view idle (before ++ b :: after) id = viewOf view idle (before ++ after) id := by
  unfold viewOf
  rw [List.find?_append, List.find?_append, List.find?_cons_of_neg]
  exact fun heq => h (eq_of_beq heq)

theorem viewOf_append_cons {before after : List Background} {b : Background}
    (h : ∀ c ∈ before, c.id ≠ b.id) :
    viewOf view idle (before ++ b :: after) b.id = view b := by
  have hnone : before.find? (·.id == b.id) = none :=
    List.find?_eq_none.2 fun c hc heq => h c hc (eq_of_beq heq)
  unfold viewOf
  simp only [List.find?_append, hnone, Option.none_or, List.find?_cons, beq_self_eq_true]

/-- What one conversation does is done on its own text box. -/
theorem moves_viewOf {next : α → Moment → α → Prop} {before after : List Background}
    {a b : Background} {m? : Option Moment} (hne : ∀ c ∈ before ++ after, c.id ≠ b.id)
    (hid : a.id = b.id) (h : Moves next (view b) m? (view a)) (id : Nat) :
    Moves next (viewOf view idle (before ++ b :: after) id)
      (momentOn (.background id) (m?.map (.mk b.channel)))
      (viewOf view idle (before ++ a :: after) id) := by
  by_cases heq : b.id = id
  · subst heq
    have hbefore : ∀ c ∈ before, c.id ≠ b.id := fun c hc => hne c (List.mem_append_left _ hc)
    have hnew : viewOf view idle (before ++ a :: after) b.id = view a := by
      rw [← hid] at hbefore ⊢
      exact viewOf_append_cons hbefore
    rw [viewOf_append_cons hbefore, hnew, ← channel, momentOn_map_self]
    exact h
  · rw [momentOn_map_of_ne (by simpa [channel] using heq), viewOf_append_cons_of_ne heq,
      viewOf_append_cons_of_ne (hid ▸ heq)]
    rfl

/-- A conversation of which there is nothing to see is not missed. -/
theorem viewOf_of_idle {before after : List Background} {b : Background}
    (hne : ∀ c ∈ before ++ after, c.id ≠ b.id) (h : view b = idle) (id : Nat) :
    viewOf view idle (before ++ b :: after) id = viewOf view idle (before ++ after) id := by
  by_cases heq : b.id = id
  · subst heq
    have hbefore : ∀ c ∈ before, c.id ≠ b.id := fun c hc => hne c (List.mem_append_left _ hc)
    rw [viewOf_append_cons hbefore, viewOf_of_forall_ne hne, h]
  · exact viewOf_append_cons_of_ne heq

end

/-- What the text box of an id stands ready for. -/
def scoreOf (bs : List Background) (id : Nat) : Score :=
  match bs.find? (·.id == id) with
  | some b => b.score
  | none => .silent

/-- Where there is no conversation of an id, nothing is performed. -/
theorem scoreOf_of_forall_ne {bs : List Background} {id : Nat} (h : ∀ b ∈ bs, b.id ≠ id) :
    scoreOf bs id = .silent := viewOf_of_forall_ne h

end Background

/-! ## Views of a session -/

/-- What is to be seen of performers: of the main one, for what is left to it to do, of one in the
background, and without any. -/
structure View (α : Type) where
  lead : Player → Option Cue → α
  background : Background → α
  idle : α

/-- What is seen of performers changes with their moments as it may, and with nothing else. -/
structure View.Follows {α : Type} (v : View α) (next : α → Moment → α → Prop) : Prop where
  lead : ∀ {setting o l m? l'}, Lead.Act setting o l m? l' →
    (∀ q, l.player.playing = some q → q.Sound) →
      Moves next (v.lead l.player l.cue?) m? (v.lead l'.player l'.cue?)
  ambient : ∀ {setting o a m? a'}, Ambient.Act setting o a m? a' → a.background.Sound →
    Moves next (v.background a.background) m? (v.background a'.background)
  begin : ∀ (p : Player) (name : String) (script : Conversation) (d : Dialogue),
    p.playing = none → next (v.lead p none) (.begun name script d)
      (v.lead (p.put { name, script, dialogue := d }) (some ⟨[], .onward⟩))
  beginBackground : ∀ b : Background, b.phase = .holding 0 →
    next v.idle (.begun b.name b.script b.dialogue) (v.background b)
  finished : ∀ b : Background, b.phase = .finished → v.background b = v.idle
  theme : ∀ (p : Player) (theme : Option String) (cue? : Option Cue),
    v.lead { p with theme } cue? = v.lead p cue?
  ask : ∀ (p : Player) (o : Operation), v.lead p (p.cueFor o) = v.lead p none

namespace Scene

variable {α : Type} {next : α → Moment → α → Prop}

/-- What is to be seen of the performer of a text box. -/
def see (v : View α) (x : Scene) : Channel → α
  | .main => v.lead x.session.player x.cue?
  | .background id => Background.viewOf v.background v.idle x.session.background id

/-- **What is seen changes on the text box of a moment**, as it may, and on no other. -/
theorem Step.moves {v : View α} (hv : v.Follows next) {o : Operation} {x y : Scene}
    {k? : Option Mark} (hx : x.Sound) (h : Step o x k? y) (c : Channel) :
    Moves next (x.see v c) (momentOn c k?) (y.see v c) := by
  cases h with
  | lead h =>
    cases c with
    | main =>
      rw [momentOn_map_self]
      exact hv.lead h hx.playing
    | background id =>
      rw [momentOn_map_of_ne (by simp)]
      rfl
  | @ambient before after b m? a hb h =>
    have hsound := hx.background b (hb ▸ List.mem_append_right _ (List.mem_cons_self ..))
    have hne := Background.ne_of_nodup (hb ▸ hx.nodup_ids)
    cases c with
    | main =>
      rw [momentOn_map_of_ne (by simp [Background.channel])]
      rfl
    | background id =>
      dsimp only [see, withBackground]
      rw [hb]
      exact Background.moves_viewOf hne (h.sound hsound).2 (hv.ambient h hsound) id
  | @begin name script d hl hb hp hc hd =>
    cases c with
    | main =>
      rw [see, hc]
      exact hv.begin _ name script d hp
    | background id => rfl
  | @beginBackground name script d hl hb hd =>
    obtain ⟨anchor, moved, hnew⟩ := x.newcomer_fst name script d
    cases c with
    | main => rfl
    | background id =>
      dsimp only [see, Scene.beginBackground]
      rw [hnew]
      by_cases heq : x.session.nextId = id
      · subst heq
        have hne : ∀ b ∈ x.session.background, b.id ≠ x.session.nextId :=
          fun b hb => Nat.ne_of_lt (hx.id_lt b hb)
        rw [Background.viewOf_of_forall_ne hne, Background.viewOf_append_cons hne]
        unfold momentOn
        rw [Option.bind_some, Mark.on?_self]
        have hbegin := hv.beginBackground (x.newcomer name script d).1
        rw [hnew] at hbegin
        exact hbegin rfl
      · rw [Background.viewOf_append_cons_of_ne heq, List.append_nil]
        unfold momentOn
        rw [Option.bind_some, Mark.on?_of_ne (by simpa using heq)]
        rfl
  | @forget before after b hb hp =>
    have hne := Background.ne_of_nodup (hb ▸ hx.nodup_ids)
    cases c with
    | main => rfl
    | background id =>
      dsimp only [see, withBackground]
      rw [hb]
      exact (Background.viewOf_of_idle hne (hv.finished b hp) id).symm
  | theme hr =>
    cases c with
    | main => exact hv.theme ..
    | background id => rfl
  | skipId | take | drop | vary | load | drain => cases c <;> rfl

/-- Asking for something changes nothing that is seen. -/
theorem see_asked {v : View α} (hv : v.Follows next) (x : Playback) (o : Operation) (c : Channel) :
    (asked x o).see v c = (of x).see v c := by
  cases c with
  | main => exact hv.ask ..
  | background id => rfl

end Scene

/-! ## Scores of a session -/

/-- What a text box stands ready for is a view. -/
def Score.view : View Score := ⟨fun p _ => p.score, Background.score, .silent⟩

theorem Score.follows_view : Score.view.Follows Score.Next where
  lead h _ := h.score
  ambient h _ := h.score
  begin p name script d hp := by
    dsimp only [view]
    rw [Player.score, hp]
    exact .begun
  beginBackground b hb := by
    dsimp only [view]
    rw [Background.score, hb]
    exact .begun
  finished b hb := by
    dsimp only [view]
    rw [Background.score, hb]
  theme _ _ _ := rfl
  ask _ _ := rfl

namespace Scene

/-- What a text box stands ready for. -/
def score (x : Scene) : Channel → Score
  | .main => x.session.player.score
  | .background id => Background.scoreOf x.session.background id

theorem see_score (x : Scene) (c : Channel) : x.see Score.view c = x.score c := by cases c <;> rfl

end Scene

end Colloquy
