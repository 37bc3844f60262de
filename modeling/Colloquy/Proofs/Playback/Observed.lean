import Colloquy.Proofs.Playback.Scene

/-!
# Proofs/Playback/Observed — each step is observed as the moment that it is

What a step adds to the stage are the calls and the announcements of its moment, and a step that is
no moment adds nothing but asides (`Scene.Step.shows`).
-/

namespace Colloquy

open Markup

namespace Stage

/-- What has been added to a stage belongs to a moment on a text box, if there was any. -/
def Shows (s s' : Stage) (c : Channel) : Option Moment → Prop
  | none => s.Same s'
  | some m => ∃ calls, m.Presents c calls ∧ s.Adds s' calls (m.announcements c)

theorem Adds.report {s t : Stage} {calls : Trace} (h : s.Adds t calls []) (e : Event) :
    s.Adds (t.report e) calls (announced [e]) := by
  have := h.trans (t.adds_report e)
  rwa [List.append_nil] at this

/-- Something is put on a text box. -/
theorem adds_put (s : Stage) {e : Entry} (h : e.isOnBox = true) :
    s.Adds (s.observe [e]) [e] [] :=
  s.adds_observe_of_onBox fun _ he => (List.mem_singleton.1 he) ▸ h

theorem same_vary (s : Stage) (v : VariableCall) : s.Same (s.vary v) := by
  cases v with
  | register name v => exact s.same_update fun _ => isAside_of_mem_announce
  | registerText name raw kind => exact s.same_update fun _ => isAside_of_mem_registerText
  | remove name => exact s.same_update fun _ => isAside_of_mem_remove
  | subscribe => exact ⟨(List.append_nil _).symm, (List.append_nil _).symm⟩

theorem same_defer (s : Stage) (f : FollowUp) : s.Same (s.defer f) := by
  cases f with
  | request r => exact s.same_leave r
  | _ => exact .refl s

end Stage

/-! ## The main performance -/

namespace Player

theorem same_changeTheme (p : Player) (theme : String) (s : Stage) :
    s.Same (p.changeTheme theme s).2 :=
  ((s.adds_observe [.theme theme]).report (.themeChanged theme) : _)

theorem same_dress (p : Player) (d : Dialogue) (s : Stage) : s.Same (p.dress d s).2 := by
  unfold dress
  split
  · split
    · exact .refl s
    · exact p.same_changeTheme _ s
  · exact .refl s

theorem same_answer {r : Request} (hr : r ≠ .closeConversation) (p : Player) (s : Stage) :
    s.Same (p.answer r s).2 := by
  cases r with
  | closeConversation => exact absurd rfl hr
  | changeTheme theme => exact p.same_changeTheme theme s
  | startBackgroundConversation name => exact s.same_leave _
  | closeBackgroundConversations => exact s.same_leave _

theorem adds_followUp {f : FollowUp} (hf : f ≠ .request .closeConversation) (p : Player)
    (s : Stage) :
    ∃ calls, (∀ e ∈ calls, ∃ image?, e = Entry.portrait .main image?) ∧
      s.Adds (p.followUp s f).2 calls [] := by
  cases f with
  | done => exact ⟨[], List.forall_mem_nil _, .refl s⟩
  | request r => exact ⟨[], List.forall_mem_nil _, p.same_answer (fun hr => hf (hr ▸ rfl)) s⟩
  | portrait image? =>
    exact ⟨_, fun e he => ⟨image?, List.mem_singleton.1 he⟩, s.adds_put rfl⟩
  | theme theme => exact ⟨[], List.forall_mem_nil _, p.same_changeTheme theme s⟩

theorem same_portraitOf (setting : Setting) (d : Dialogue) (s : Stage) :
    s.Same (portraitOf setting d s).2 := by
  unfold portraitOf
  split
  · exact s.same_portrait ..
  · exact .refl s

/-- A speaker is introduced by a name and a portrait. -/
theorem adds_introduce (setting : Setting) (d : Dialogue) (s : Stage) :
    ∃ calls, (∀ e ∈ calls, e.introduces .main) ∧ s.Adds (introduce setting d s) calls [] := by
  refine ⟨_, ?_, ((s.adds_put rfl).same (same_portraitOf ..)).trans (Stage.adds_put _ rfl)⟩
  intro e he
  rcases List.mem_cons.1 he with rfl | he
  · exact .inl ⟨_, rfl⟩
  · exact .inr ⟨_, List.mem_singleton.1 he⟩

/-- A sentence is shown, and the speaker is introduced after it, if at all. -/
theorem shows_say (setting : Setting) (q : Performance) (raw : String) (p : Player) (s : Stage)
    (place : Nat) :
    s.Shows (p.say setting q raw s).2 .main
      (some (.shown q.dialogue place (Reading.ofText s.vars raw).sentence)) := by
  have hsame : s.Same ((p.dress q.dialogue s).2.read raw).2 :=
    (p.same_dress q.dialogue s).trans (Stage.same_read _ raw)
  obtain ⟨rest, hrest, hadds⟩ := adds_introduce setting q.dialogue
    (((p.dress q.dialogue s).2.read raw).2.observe
      [.sentence .main (Reading.ofText s.vars raw).sentence.text q.dialogue.speaker? false
        q.dialogue.autoProceed])
  unfold say
  dsimp only
  rw [show ((p.dress q.dialogue s).2.read raw).1 = (Reading.ofText s.vars raw).sentence by
    rw [← vars_dress p q.dialogue s]; rfl]
  cases !q.opening && q.lastSpeaker == q.dialogue.speaker? with
  | true => exact ⟨_, ⟨_, _, [], rfl, List.forall_mem_nil _⟩, hsame.adds (Stage.adds_put _ rfl)⟩
  | false =>
    exact ⟨_, ⟨_, _, rest, rfl, hrest⟩, hsame.adds ((Stage.adds_put _ rfl).trans hadds)⟩

end Player

/-- What is done in the main performance is observed as the moment that it is. -/
theorem Lead.Act.shows {setting : Setting} {o : Operation} {l l' : Lead}
    {m? : Option Moment} (h : Lead.Act setting o l m? l') :
    l.stage.Shows l'.stage .main m? := by
  cases h with
  | @say q raw p s => exact p.shows_say setting q raw s q.said
  | elapse => exact .refl _
  | letter => exact ⟨_, rfl, Stage.adds_put _ rfl⟩
  | @tag q r r' c p s deed hq hp hr hd hf =>
    obtain ⟨acts, hacts, hadds⟩ := s.acts_carryOut setting q.script.actions r'.clock c
    rw [hd] at hadds
    obtain ⟨calls, hcalls, hafter⟩ := Player.adds_followUp hf
      (p.put { q with phase := .revealing { r' with clock := deed.clock } }) deed.stage
    refine ⟨acts ++ calls, fun e he => ?_, hadds.trans hafter⟩
    rcases List.mem_append.1 he with he | he
    · exact .inl (hacts e he)
    · exact .inr (hcalls e he)
  | @lastTag q r r' c p s deed hq hp hr hd hf =>
    obtain ⟨acts, hacts, hadds⟩ := s.acts_carryOut setting q.script.actions r'.clock c
    rw [hd] at hadds
    exact ⟨acts, fun e he => .inl (hacts e he), hadds⟩
  | whole => exact ⟨_, rfl, Stage.adds_put _ rfl⟩
  | link | follow => exact ⟨[], List.forall_mem_nil _, .refl _⟩
  | offer => exact ⟨_, ⟨rfl, rfl⟩, Stage.adds_put _ rfl⟩
  | choose | conclude => exact ⟨[], rfl, .refl _⟩
  | @fire q a as g p s s' hq hp hf | @lastAction q a as g p s s' hq hp hf =>
    have hacts := s.acts_fire setting q.script.actions a .nothing
    rw [hf] at hacts
    exact hacts
  | @request q a as g r p s s' hq hp hf hr =>
    obtain ⟨calls, hcalls, hadds⟩ := s.acts_fire setting q.script.actions a .nothing
    rw [hf] at hadds
    exact ⟨calls, hcalls, hadds.same (p.same_answer hr s')⟩
  | note notes => exact Stage.same_annotate _ notes
  | obey => exact Stage.same_requests _ _
  | @finish q why p s hq =>
    rw [Lead.of, Player.stop_of_playing hq]
    exact ⟨_, rfl, (Stage.adds_put _ rfl).report _⟩

/-! ## Background conversations -/

namespace Background

theorem shows_say (setting : Setting) (raw : String) (b : Background) (s : Stage) (place : Nat) :
    s.Shows (b.say setting raw s).2 b.channel
      (some (.shown b.dialogue place (Reading.ofText s.vars raw).sentence)) :=
  ⟨_, ⟨_, _, [], rfl, List.forall_mem_nil _⟩, (s.same_read raw).adds (Stage.adds_put _ rfl)⟩

/-- A move is to the anchor of a dialogue, if to any. -/
theorem adds_visit (first : Bool) (b : Background) (s : Stage) (d : Dialogue) :
    ∃ calls, (∀ e ∈ calls, ∃ name, e = Entry.anchor b.channel name) ∧
      s.Adds (b.visit first s d).2 calls [] := by
  unfold visit
  dsimp only
  split
  · split
    · exact ⟨[], List.forall_mem_nil _, .refl s⟩
    · exact ⟨_, fun e he => ⟨_, List.mem_singleton.1 he⟩, s.adds_put rfl⟩
  · exact ⟨[], List.forall_mem_nil _, .refl s⟩

end Background

/-- What is done in a background conversation is observed as the moment that it is. -/
theorem Ambient.Act.shows {setting : Setting} {o : Operation} {a a' : Ambient}
    {m? : Option Moment} (h : Ambient.Act setting o a m? a') :
    a.stage.Shows a'.stage a.background.channel m? := by
  cases h with
  | @say b x raw s => exact b.shows_say setting raw s b.said
  | elapse | hold => exact .refl _
  | letter => exact ⟨_, rfl, Stage.adds_put _ rfl⟩
  | @tag b r r' c s deed hp hr hd hf =>
    obtain ⟨acts, hacts, hadds⟩ := s.acts_carryOut setting b.script.actions r'.clock c
    rw [hd] at hadds
    exact ⟨acts, fun e he => .inl (hacts e he), hadds.same (deed.stage.same_defer _)⟩
  | @lastTag b r r' c s deed hp hr hd hf =>
    obtain ⟨acts, hacts, hadds⟩ := s.acts_carryOut setting b.script.actions r'.clock c
    rw [hd] at hadds
    exact ⟨acts, fun e he => .inl (hacts e he), hadds.same (deed.stage.same_leave _)⟩
  | whole => exact ⟨_, rfl, Stage.adds_put _ rfl⟩
  | @link b x id d s => exact b.adds_visit false s d
  | @finish b s why hp =>
    rw [Ambient.of, Background.finish_of_active hp]
    exact ⟨_, rfl, (Stage.adds_put _ rfl).report _⟩

/-! ## A session -/

namespace Scene

/-- All events so far. -/
def events (x : Scene) : List Event := x.heard ++ x.session.stage.events

/-- Some calls and some announcements have been added in a session, and else only asides. -/
structure Adds (x y : Scene) (calls : Trace) (es : List Event) : Prop where
  callsOf_trace : callsOf y.session.stage.trace = callsOf x.session.stage.trace ++ calls
  announced_events : announced y.events = announced x.events ++ es

theorem Adds.refl (x : Scene) : x.Adds x [] [] :=
  ⟨(List.append_nil _).symm, (List.append_nil _).symm⟩

theorem Adds.trans {x y z : Scene} {c d : Trace} {es fs : List Event} (h : x.Adds y c es)
    (k : y.Adds z d fs) : x.Adds z (c ++ d) (es ++ fs) :=
  ⟨by rw [k.callsOf_trace, h.callsOf_trace, List.append_assoc],
    by rw [k.announced_events, h.announced_events, List.append_assoc]⟩

/-- What has been added belongs to a moment, if there was any. -/
def Shows (x y : Scene) : Option Mark → Prop
  | none => x.Adds y [] []
  | some k => ∃ calls, k.moment.Presents k.channel calls ∧
      x.Adds y calls (k.moment.announcements k.channel)

/-- What has been added to the stage has been added in the session. -/
theorem adds_of_stage {x y : Scene} (hy : y.heard = x.heard) {calls : Trace} {es : List Event}
    (h : x.session.stage.Adds y.session.stage calls es) : x.Adds y calls es :=
  ⟨h.callsOf_trace, by
    rw [events, events, announced_append, announced_append, hy, h.announced_events,
      List.append_assoc]⟩

theorem shows_of_stage {x y : Scene} (hy : y.heard = x.heard) {c : Channel} {m? : Option Moment}
    (h : x.session.stage.Shows y.session.stage c m?) : x.Shows y (m?.map (.mk c)) := by
  cases m? with
  | none => exact adds_of_stage hy h
  | some m =>
    obtain ⟨calls, hcalls, hadds⟩ := h
    exact ⟨calls, hcalls, adds_of_stage hy hadds⟩

theorem shows_none_of_stage {x y : Scene} (hy : y.heard = x.heard)
    (h : x.session.stage.Same y.session.stage) : x.Shows y none := adds_of_stage hy h

/-- **Each step is observed as the moment that it is.** -/
theorem Step.shows {o : Operation} {x y : Scene} {k? : Option Mark}
    (h : Step o x k? y) : x.Shows y k? := by
  cases h with
  | lead h =>
    refine shows_of_stage ?_ ?_
    · rfl
    · exact h.shows
  | ambient hb h =>
    refine shows_of_stage ?_ ?_
    · rfl
    · exact h.shows
  | @begin name script d =>
    refine ⟨[], List.forall_mem_nil _, adds_of_stage ?_ ?_⟩
    · rfl
    · exact (x.session.stage.same_startingPoint script).report _
  | @beginBackground name script d =>
    obtain ⟨calls, hcalls, hadds⟩ := Background.adds_visit true
      { id := x.session.nextId, name, script, dialogue := d, phase := .holding 0 }
      ((x.session.stage.startingPoint script).2.report
        (.backgroundStarted x.session.nextId name)) d
    refine ⟨calls, hcalls, adds_of_stage ?_ ?_⟩
    · rfl
    · exact ((x.session.stage.same_startingPoint script).report _).trans hadds
  | skipId | forget | load =>
    refine shows_none_of_stage ?_ ?_
    · rfl
    · exact .refl _
  | take | drop =>
    refine shows_none_of_stage ?_ ?_
    · rfl
    · exact x.session.stage.same_requests _
  | theme =>
    refine shows_none_of_stage ?_ ?_
    · rfl
    · exact (x.session.stage.same_requests _).trans (x.session.player.same_changeTheme ..)
  | @vary v =>
    refine shows_none_of_stage ?_ ?_
    · rfl
    · exact x.session.stage.same_vary v
  | drain =>
    refine ⟨(List.append_nil _).symm, ?_⟩
    rw [events, events, List.append_nil, withStage, List.append_nil]

end Scene

end Colloquy
