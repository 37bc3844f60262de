import Colloquy.Proofs.Playback.Bare
import Colloquy.Proofs.Playback.Coherence

/-!
# Proofs/Playback/Past — a player acts on the variables, and only adds to the rest

A stage comes after a past if the requests, the events and the trace of the past stand before its
own (`Stage.after`). Whatever a player is asked for, it does the same after any past
(`IgnoresPast`): of what it finds, it looks at the variables alone, and what it leaves, it adds at
the end. Each function of the player has one lemma here, and the run of a reveal is carried by
`Reveal.runBeats_map`.
-/

namespace Colloquy

open Markup

/-! ## A past -/

/-- The stage with a past before it. The variables are those of now. -/
def Stage.after (s past : Stage) : Stage :=
  ⟨s.vars, past.requests ++ s.requests, past.events ++ s.events, past.trace ++ s.trace⟩

/-- Something is done on a stage without looking at what was done on it before. -/
def IgnoresPast {α : Type} (f : Stage → α × Stage) : Prop :=
  ∀ s past, f (s.after past) = ((f s).1, (f s).2.after past)

/-- The turn with a past before it. -/
def Turn.after (t : Turn) (past : Stage) : Turn := { t with stage := t.stage.after past }

namespace Stage

variable (s past : Stage)

/-- A stage is what it is after all that was done on it, the variables apart. -/
theorem after_ofVariables : (ofVariables s.vars).after s = s := by
  simp only [after, ofVariables, List.append_nil]

@[simp] theorem vars_after : (s.after past).vars = s.vars := rfl

@[simp] theorem observe_after (t : Trace) :
    (s.after past).observe t = (s.observe t).after past := by
  simp only [observe, after, List.append_assoc]

@[simp] theorem annotate_after (notes : List Note) :
    (s.after past).annotate notes = (s.annotate notes).after past := observe_after ..

@[simp] theorem report_after (e : Event) :
    (s.after past).report e = (s.report e).after past := by
  simp only [report, after, List.append_assoc]

@[simp] theorem leave_after (r : Request) :
    (s.after past).leave r = (s.leave r).after past := by
  simp only [leave, after, List.append_assoc]

@[simp] theorem update_after {α : Type} (u : Variables.Update α) :
    (s.after past).update u = (s.update u).after past :=
  observe_after { s with vars := u.vars } past u.trace

@[simp] theorem read_after (raw : String) :
    (s.after past).read raw = ((s.read raw).1, (s.read raw).2.after past) :=
  Prod.ext rfl (observe_after { s with vars := (Reading.ofText s.vars raw).vars } past _)

@[simp] theorem startingPoint_after (script : Conversation) :
    (s.after past).startingPoint script =
      ((s.startingPoint script).1, (s.startingPoint script).2.after past) :=
  Prod.ext rfl (annotate_after s past _)

@[simp] theorem portrait_after (setting : Setting) (set sprite : String) :
    (s.after past).portrait setting set sprite =
      ((s.portrait setting set sprite).1, (s.portrait setting set sprite).2.after past) :=
  Prod.ext rfl (annotate_after s past _)

@[simp] theorem fire_after (setting : Setting) (declared : List Action) (name : String)
    (supplied : Supplied) :
    (s.after past).fire setting declared name supplied =
      ((s.fire setting declared name supplied).1,
        (s.fire setting declared name supplied).2.after past) :=
  Prod.ext rfl (observe_after s past _)

@[simp] theorem carryOut_after (setting : Setting) (declared : List Action) (k : Clock)
    (c : Command) :
    (s.after past).carryOut setting declared k c =
      { s.carryOut setting declared k c with
        stage := (s.carryOut setting declared k c).stage.after past } := by
  cases c with
  | sendMessage target message =>
    by_cases hblank : Text.IsBlank message <;> simp [carryOut, hblank]
  | _ => simp [carryOut]

theorem vary_after (v : VariableCall) : (s.after past).vary v = (s.vary v).after past := by
  cases v with
  | subscribe => rfl
  | _ => simp [vary]

end Stage

/-! ## What a player does -/

namespace Player

variable (setting : Setting) (p : Player)

theorem ignoresPast_changeTheme (theme : String) : IgnoresPast (p.changeTheme theme) := by
  intro s past
  simp [changeTheme]

theorem ignoresPast_stop : IgnoresPast p.stop := by
  intro s past
  unfold stop
  split <;> simp

theorem ignoresPast_answer (r : Request) : IgnoresPast (p.answer r) := by
  intro s past
  cases r with
  | closeConversation => exact p.ignoresPast_stop s past
  | changeTheme theme => exact p.ignoresPast_changeTheme theme s past
  | _ => simp [answer]

theorem ignoresPast_fireAll (declared : List Action) (names : List String) :
    ∀ p : Player, IgnoresPast (fireAll setting declared names p) := by
  induction names with
  | nil => exact fun _ _ _ => rfl
  | cons name rest ih =>
    intro p s past
    unfold fireAll
    rw [Stage.fire_after]
    obtain ⟨_ | r, s'⟩ := s.fire setting declared name .nothing
    · exact ih p s' past
    · dsimp only
      rw [p.ignoresPast_answer r s' past]
      dsimp only
      split
      · exact ih _ _ past
      · rfl

theorem ignoresPast_dress (d : Dialogue) : IgnoresPast (p.dress d) := by
  intro s past
  unfold dress
  split
  · split
    · rfl
    · exact p.ignoresPast_changeTheme _ s past
  · rfl

theorem ignoresPast_portraitOf (d : Dialogue) : IgnoresPast (portraitOf setting d) := by
  intro s past
  unfold portraitOf
  split
  · exact Stage.portrait_after ..
  · rfl

theorem introduce_after (d : Dialogue) (s past : Stage) :
    introduce setting d (s.after past) = (introduce setting d s).after past := by
  unfold introduce
  simp only [Stage.observe_after]
  rw [ignoresPast_portraitOf]
  exact Stage.observe_after ..

theorem ignoresPast_say (q : Performance) (raw : String) :
    IgnoresPast (p.say setting q raw) := by
  intro s past
  unfold say
  dsimp only
  rw [p.ignoresPast_dress q.dialogue s past]
  dsimp only
  rw [Stage.read_after]
  refine Prod.ext rfl ?_
  dsimp only
  rw [Stage.observe_after, introduce_after]
  split <;> rfl

theorem ignoresPast_offer (q : Performance) : IgnoresPast (p.offer q) := by
  intro s past
  simp [offer]

theorem ignoresPast_finish (q : Performance) : IgnoresPast (p.finish setting q) := by
  intro s past
  unfold finish
  rw [ignoresPast_fireAll]
  exact ignoresPast_stop _ _ past

theorem ignoresPast_fail (note : Note) : IgnoresPast (p.fail note) := by
  intro s past
  unfold fail
  rw [Stage.annotate_after]
  exact p.ignoresPast_stop _ past

theorem ignoresPast_stay (q : Performance) : IgnoresPast (p.stay setting q) := by
  intro s past
  unfold stay
  split
  · exact p.ignoresPast_say setting q _ s past
  · exact p.ignoresPast_offer q s past
  all_goals exact p.ignoresPast_finish setting q s past

theorem ignoresPast_enter (q : Performance) (d : Dialogue) : IgnoresPast (p.enter setting q d) := by
  intro s past
  unfold enter
  split
  · exact p.ignoresPast_stay setting _ s past
  all_goals exact p.ignoresPast_fail _ s past

theorem goTo_after (q : Performance) (id : Int32) (s past : Stage) :
    p.goTo setting q id (s.after past) = (p.goTo setting q id s).after past := by
  unfold goTo
  split
  · rw [ignoresPast_enter]
    rfl
  · dsimp only
    rw [ignoresPast_fail]
    rfl

theorem ignoresPast_advance (q : Performance) : IgnoresPast (p.advance setting q) := by
  intro s past
  unfold advance
  split
  · rw [goTo_after]
    rfl
  · exact p.ignoresPast_stay setting q s past

/-! ## What a player is asked for -/

theorem refuse_after (e : PlaybackError) (note : Note) (s past : Stage) :
    p.refuse e note (s.after past) = (p.refuse e note s).after past := by
  simp [refuse, Turn.after]

theorem start_after (name : String) (script : Conversation) (s past : Stage) :
    p.start setting name script (s.after past) = (p.start setting name script s).after past := by
  unfold start
  split
  · exact p.refuse_after _ _ s past
  · rw [Stage.startingPoint_after]
    obtain ⟨_ | d, s'⟩ := s.startingPoint script
    · exact p.refuse_after _ _ s' past
    · dsimp only
      rw [Stage.report_after, ignoresPast_enter]
      rfl

theorem next_after (s past : Stage) :
    p.next setting (s.after past) = (p.next setting s).after past := by
  unfold next
  split
  · rfl
  · split
    · exact p.refuse_after _ _ s past
    · exact p.refuse_after _ _ s past
    · rw [ignoresPast_advance]
      rfl

theorem choose_after (q : Performance) (c : Choice) (s past : Stage) :
    p.choose setting q c (s.after past) = (p.choose setting q c s).after past := by
  unfold choose
  rw [ignoresPast_fireAll]
  dsimp only
  split
  · exact goTo_after ..
  · rw [ignoresPast_stop]
    rfl

theorem select_after (index : Nat) (s past : Stage) :
    p.select setting index (s.after past) = (p.select setting index s).after past := by
  unfold select
  split
  · rfl
  · split
    · split
      · exact p.choose_after setting _ _ s past
      · exact p.refuse_after _ _ s past
    · exact p.refuse_after _ _ s past

/-! ## Time -/

theorem ignoresPast_followUp (f : FollowUp) : IgnoresPast fun s => p.followUp s f := by
  intro s past
  cases f with
  | done => rfl
  | request r => exact p.ignoresPast_answer r s past
  | portrait image? => simp [followUp]
  | theme theme => exact p.ignoresPast_changeTheme theme s past

theorem ignoresPast_tick (dt : Single) : IgnoresPast (p.tick setting dt) := by
  intro s past
  unfold tick
  split
  · rfl
  · rename_i q r _
    have hrun := Reveal.runBeats_map (h := handler setting q.script.actions)
      (k := handler setting q.script.actions) (fun x => (x.1, x.2.after past))
      (fun x => by simp [handler])
      (fun c k x => by
        unfold handler
        dsimp only
        rw [Stage.carryOut_after]
        dsimp only
        rw [show x.1.followUp ((x.2.carryOut setting q.script.actions k c).stage.after past) _ = _
          from ignoresPast_followUp x.1 _ _ past])
      (r.elapse dt).pending (r.elapse dt).revealed (r.elapse dt).clock (p, s)
    unfold Reveal.run
    rw [hrun]
    obtain ⟨_ | _ | _, p', s'⟩ := Reveal.runBeats (handler setting q.script.actions)
      (r.elapse dt).pending (r.elapse dt).revealed (r.elapse dt).clock (p, s)
    · rfl
    · dsimp only
      rw [Stage.observe_after]
      split
      · exact ignoresPast_advance setting _ _ _ past
      · rfl
    · rfl

end Player

end Colloquy
