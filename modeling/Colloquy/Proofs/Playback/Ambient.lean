import Colloquy.Proofs.Playback.Calls
import Colloquy.Proofs.Playback.Operation
import Colloquy.Proofs.Playback.Sound

/-!
# Proofs/Playback/Ambient — a background conversation, one thing at a time

What a background conversation does as time passes is taken apart as it is for the main one:
`Ambient.Act` lists the things that are done one by one, and `Ambient.reaches_tick` says that
nothing else is done. One that starts is on its first dialogue and says the first sentence of it
(`Ambient.start_eq`).
-/

namespace Colloquy

open Markup

/-- What a command asks for is left for others, if it is a request. -/
def Stage.defer (s : Stage) : FollowUp → Stage
  | .request r => s.leave r
  | .done | .portrait _ | .theme _ => s

namespace Background

/-- The script is sound, and the dialogue is one of it. -/
structure Sound (b : Background) : Prop where
  script : b.script.Sound
  dialogue : b.dialogue ∈ b.script.dialogues

/-- Where a dialogue leads, there is one to go to. -/
theorem Sound.exists_of_link {b : Background} (hb : b.Sound) {said : Nat} {id : Int32}
    (h : b.dialogue.ambientOutlook said = .link id) : ∃ d, b.script.dialogue? id = some d := by
  have hn : b.dialogue.next? = some id := (Dialogue.outlook_eq_link h).2.2
  refine hb.script.links _ hb.dialogue id (List.mem_append_left _ ?_)
  rw [hn]
  exact List.mem_singleton_self id

theorem isFinished_eq_false {b : Background} (h : b.phase ≠ .finished) : b.isFinished = false := by
  rw [isFinished, beq_eq_false_iff_ne]
  exact h

theorem finish_of_active {b : Background} (h : b.phase ≠ .finished) (s : Stage) :
    b.finish s =
      ({ b with phase := .finished },
        (s.observe [.close b.channel]).report (.backgroundFinished b.id)) := by
  rw [finish, isFinished_eq_false h]
  rfl

/-- No request but that to close background conversations is of concern here. -/
theorem followUp_eq {f : FollowUp} (hf : f ≠ .request .closeBackgroundConversations)
    (b : Background) (s : Stage) : b.followUp s f = (b, s.defer f) := by
  unfold followUp
  split
  · exact absurd rfl hf
  all_goals rfl

/-- What phase it is in does not matter for moving. -/
theorem visit_phase (first : Bool) (b : Background) (phase : AmbientPhase) (s : Stage)
    (d : Dialogue) :
    ({ b with phase } : Background).visit first s d =
      ({ (b.visit first s d).1 with phase }, (b.visit first s d).2) := by
  unfold visit
  dsimp only
  split
  · by_cases h : b.anchor = some ‹String›
    · rw [if_pos h, if_pos h]
    · rw [if_neg h, if_neg h]
      rfl
  · rfl

/-- A move changes where it is in the script and the anchor, and nothing else. -/
theorem visit_fst (first : Bool) (b : Background) (s : Stage) (d : Dialogue) :
    ∃ anchor moved, (b.visit first s d).1 =
      { b with dialogue := d, sentenceIndex? := none, anchor, moved } := by
  unfold visit
  dsimp only
  split
  · split
    · exact ⟨_, _, rfl⟩
    · exact ⟨_, _, rfl⟩
  · exact ⟨_, _, rfl⟩

/-- In a sound script, whoever enters a dialogue says its first sentence. -/
theorem enter_eq (setting : Setting) (first : Bool) {b : Background} (hs : b.script.Sound)
    {d : Dialogue} (hd : d ∈ b.script.dialogues) (s : Stage) :
    ∃ raw, d.ambientOutlook 0 = .sentence raw ∧
      b.enter setting first d s = (b.visit first s d).1.say setting raw (b.visit first s d).2 := by
  obtain ⟨raw, -, -, ho⟩ := hs.exists_outlook hd
  refine ⟨raw, ho, ?_⟩
  have htrail : b.script.trail? (·.ambientOutlook 0) d = some ⟨[], .at d⟩ :=
    Conversation.trail?_of_sentence ho
  obtain ⟨anchor, moved, hv⟩ := b.visit_fst first s d
  have hstay : (b.visit first s d).1.stay setting (b.visit first s d).2 =
      (b.visit first s d).1.say setting raw (b.visit first s d).2 := by
    rw [hv]
    unfold stay
    dsimp only [said]
    rw [ho]
  unfold enter
  rw [htrail]
  exact hstay

end Background

/-! ## What is done one by one -/

/-- A background conversation, and the stage. -/
structure Ambient where
  background : Background
  stage : Stage

namespace Ambient

/-- A background conversation on a stage. -/
def of (x : Background × Stage) : Ambient := ⟨x.1, x.2⟩

variable (setting : Setting) (o : Operation)

/-- One thing that is done in a background conversation, in the course of an operation. -/
inductive Act : Ambient → Option Moment → Ambient → Prop
  /-- The next sentence of the dialogue is shown. -/
  | say {b : Background} {x : Single} {raw : String} {s : Stage} (hp : b.phase = .holding x)
    (ho : b.dialogue.ambientOutlook b.said = .sentence raw) :
    Act ⟨b, s⟩ (some (.shown b.dialogue b.said (Reading.ofText s.vars raw).sentence))
      (.of (b.say setting raw s))
  /-- Time passes, if the operation lets it. -/
  | elapse {b : Background} {r : Reveal} {dt : Single} {s : Stage} (hp : b.phase = .revealing r)
    (ho : o = .tick dt) :
    Act ⟨b, s⟩ none ⟨{ b with phase := .revealing (r.elapse dt) }, s⟩
  | hold {b : Background} {x dt : Single} {s : Stage} (hp : b.phase = .holding x)
    (ho : o = .tick dt) :
    Act ⟨b, s⟩ none ⟨{ b with phase := .holding (x - dt) }, s⟩
  | letter {b : Background} {r r' : Reveal} {s : Stage} (hp : b.phase = .revealing r)
    (hr : r.step = (.character, r')) :
    Act ⟨b, s⟩ (some .letter)
      ⟨{ b with phase := .revealing r' }, s.observe [.reveal b.channel]⟩
  /-- A tag takes effect that does not end the conversation. -/
  | tag {b : Background} {r r' : Reveal} {c : Command} {s : Stage} {deed : Deed}
    (hp : b.phase = .revealing r) (hr : r.step = (.tag c, r'))
    (hd : s.carryOut setting b.script.actions r'.clock c = deed)
    (hf : deed.followUp ≠ .request .closeBackgroundConversations) :
    Act ⟨b, s⟩ (some (.tag c))
      ⟨{ b with phase := .revealing { r' with clock := deed.clock } },
        deed.stage.defer deed.followUp⟩
  /-- A tag takes effect, after which the conversation is to end. -/
  | lastTag {b : Background} {r r' : Reveal} {c : Command} {s : Stage} {deed : Deed}
    (hp : b.phase = .revealing r) (hr : r.step = (.tag c, r'))
    (hd : s.carryOut setting b.script.actions r'.clock c = deed)
    (hf : deed.followUp = .request .closeBackgroundConversations) :
    Act ⟨b, s⟩ (some (.tag c))
      ⟨{ b with phase := .revealing r' }, deed.stage.leave .closeBackgroundConversations⟩
  | whole {b : Background} {r r' : Reveal} {s : Stage} (hp : b.phase = .revealing r)
    (hr : r.step = (.finished, r')) :
    Act ⟨b, s⟩ (some .whole)
      ⟨{ b with phase := .holding setting.config.timings.backgroundEndDelay },
        s.observe [.revealed b.channel]⟩
  /-- The dialogue is left for the next one. -/
  | link {b : Background} {x : Single} {id : Int32} {d : Dialogue} {s : Stage}
    (hp : b.phase = .holding x) (ho : b.dialogue.ambientOutlook b.said = .link id)
    (hd : b.script.dialogue? id = some d) :
    Act ⟨b, s⟩ (some (.entered d)) (.of (b.visit false s d))
  /-- It ends, for whatever reason. -/
  | finish {b : Background} {s : Stage} (why : Ending) (hp : b.phase ≠ .finished) :
    Act ⟨b, s⟩ (some (.ended b.name why)) (.of (b.finish s))

/-! ## What is done as time passes -/

variable {setting o}

/-- From where a dialogue was entered, its first sentence is said. -/
theorem reaches_enter (first : Bool) {b : Background} {x : Single} (hp : b.phase = .holding x)
    (hs : b.script.Sound) {d : Dialogue} (hd : d ∈ b.script.dialogues) (s : Stage) :
    Reaches (Act setting o) (.of (b.visit first s d)) (.of (b.enter setting first d s)) := by
  obtain ⟨raw, ho, h⟩ := Background.enter_eq setting first hs hd s
  obtain ⟨anchor, moved, hv⟩ := b.visit_fst first s d
  rw [h]
  refine .single (.say (x := x) ?_ ?_)
  · rw [hv]
    exact hp
  · rw [hv]
    exact ho

theorem reaches_advance {b : Background} {x : Single} {s : Stage} (hp : b.phase = .holding x)
    (hb : b.Sound) : Reaches (Act setting o) ⟨b, s⟩ (.of (b.advance setting s)) := by
  have hactive : b.phase ≠ .finished := by simp [hp]
  unfold Background.advance
  split
  case h_1 id ho =>
    obtain ⟨d, hd⟩ := hb.exists_of_link ho
    rw [hd]
    exact .cons (.link hp ho hd)
      (reaches_enter false hp hb.script (Conversation.mem_of_dialogue? hd).1 s)
  case h_2 =>
    unfold Background.stay
    split
    case h_1 raw ho => exact .single (.say hp ho)
    case h_2 => exact .single (.finish .exhausted hactive)

/-- The conversation when steps have been taken as far as the clock allowed. -/
def after (setting : Setting) : Progress × Background × Stage → Ambient
  | (.waiting r, b, s) => ⟨{ b with phase := .revealing r }, s⟩
  | (.finished, b, s) =>
    ⟨{ b with phase := .holding setting.config.timings.backgroundEndDelay },
      s.observe [.revealed b.channel]⟩
  | (.broken, b, s) => ⟨b, s⟩

/-- The steps of a reveal are taken one by one. -/
theorem reaches_runBeats {b : Background} (hb : b.phase ≠ .finished) (bs : List Beat) :
    ∀ {n : Nat} {k : Clock} {s : Stage},
      Reaches (Act setting o) ⟨{ b with phase := .revealing ⟨bs, n, k⟩ }, s⟩
        (after setting
          (Reveal.runBeats (Background.handler setting b.script.actions) bs n k (b, s))) := by
  induction bs with
  | nil =>
    intro n k s
    unfold Reveal.runBeats
    split
    case isTrue => exact .refl _
    case isFalse hw =>
      have hstep : (⟨[], n, k⟩ : Reveal).step = (.finished, ⟨[], n, k⟩) := by
        simp [Reveal.step, hw]
      exact .single (.whole (b := { b with phase := .revealing ⟨[], n, k⟩ }) rfl hstep)
  | cons t bs ih =>
    intro n k s
    cases t with
    | character c =>
      unfold Reveal.runBeats
      split
      case isTrue => exact .refl _
      case isFalse hw => exact .cons (.letter rfl (by simp [Reveal.step, hw])) ih
    | tag c =>
      unfold Reveal.runBeats
      split
      case isTrue => exact .refl _
      case isFalse hw =>
        have hstep : (⟨.tag c :: bs, n, k⟩ : Reveal).step = (.tag c, ⟨bs, n, k⟩) := by
          simp [Reveal.step, hw]
        unfold Background.handler
        dsimp only
        generalize hd : s.carryOut setting b.script.actions k c = deed
        by_cases hf : deed.followUp = .request .closeBackgroundConversations
        · have hfinish : b.followUp deed.stage deed.followUp =
              ({ b with phase := .finished },
                ((deed.stage.observe [.close b.channel]).report
                  (.backgroundFinished b.id)).leave .closeBackgroundConversations) := by
            rw [hf, Background.followUp, Background.finish_of_active hb]
          have hover : ({ b with phase := .finished } : Background).isFinished = true := rfl
          rw [hfinish, hover, if_pos rfl]
          have hactive : ({ b with phase := .revealing ⟨bs, n, k⟩ } : Background).phase ≠
              .finished := by simp
          have hlast : Act setting o _ _ _ := .finish .asked hactive
            (s := deed.stage.leave .closeBackgroundConversations)
          rw [Background.finish_of_active hactive] at hlast
          exact .cons (.lastTag rfl hstep hd hf) (.single hlast)
        · rw [Background.followUp_eq hf, Background.isFinished_eq_false hb,
            if_neg Bool.false_ne_true]
          refine .cons (.tag rfl hstep hd hf) ?_
          exact ih

theorem reaches_run {b : Background} (hb : b.phase ≠ .finished) (r : Reveal) {s : Stage} :
    Reaches (Act setting o) ⟨{ b with phase := .revealing r }, s⟩
      (after setting (r.run (Background.handler setting b.script.actions) (b, s))) :=
  reaches_runBeats hb r.pending

/-- What happens as time passes is done one by one. -/
theorem reaches_tick {b : Background} (hb : b.Sound) {dt : Single} (ho : o = .tick dt)
    (s : Stage) : Reaches (Act setting o) ⟨b, s⟩ (.of (b.tick setting dt s)) := by
  unfold Background.tick
  split
  case h_1 => exact .refl _
  case h_2 x hp =>
    refine .cons (.hold hp ho) ?_
    dsimp only
    split
    · exact reaches_advance rfl ⟨hb.script, hb.dialogue⟩
    · exact .refl _
  case h_3 r hp =>
    have hactive : b.phase ≠ .finished := by simp [hp]
    refine .cons (.elapse hp ho) ?_
    refine .trans (reaches_run hactive (r.elapse dt)) ?_
    rcases Reveal.run _ _ _ with ⟨_ | _ | _, b', s'⟩
    all_goals exact .refl _

end Ambient

/-! ## What is done at the start -/

namespace Background

/-- One that starts is on a dialogue of its script, which it moves to, and it says the first
sentence of that dialogue. -/
theorem start_eq (setting : Setting) (id : Nat) (name : String) {script : Conversation}
    (hs : script.Sound) {s : Stage} {d : Dialogue}
    (hd : (script.startingPoint s.vars).value = some d) :
    ∃ raw, d.ambientOutlook 0 = .sentence raw ∧
      Background.start setting id name script s =
        let b : Background := { id, name, script, dialogue := d, phase := .holding 0 }
        let x := b.visit true ((s.startingPoint script).2.report (.backgroundStarted id name)) d
        (.ok (x.1.say setting raw x.2).1, (x.1.say setting raw x.2).2) := by
  let b : Background := { id, name, script, dialogue := d }
  have hmem : d ∈ b.script.dialogues := Conversation.mem_of_startingPoint hd
  obtain ⟨raw, ho, h⟩ := b.enter_eq setting true hs hmem
    ((s.startingPoint script).2.report (.backgroundStarted id name))
  refine ⟨raw, ho, ?_⟩
  have hstart : s.startingPoint script = (some d, (s.startingPoint script).2) := by
    rw [← hd]
    rfl
  unfold Background.start
  rw [hstart]
  dsimp only
  rw [visit_phase true b (.holding 0), h]
  rfl

end Background

end Colloquy
