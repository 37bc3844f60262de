import Colloquy.Proofs.Playback.Scene
import Colloquy.Proofs.Script.Substance

/-!
# Proofs/Playback/Utterance — all that a performer utters is proper

What a performer observes, reports and leaves for others on a stage is proper if all that was there
before is (`Stage.Proper`): one lemma says so of each thing that a player and a background
conversation do. What carries them is that the script is sound, so that no link leads nowhere, and
that every tag which is still to come has the value that it needs (`Player.Apt`,
`Background.Apt`).
-/

namespace Colloquy

open Markup

/-! ## The stage -/

/-- What is left to do for a command has the name that it needs. -/
def FollowUp.Filled : FollowUp → Prop
  | .request r => r.Filled
  | .theme name => ¬ Text.IsBlank name
  | .done | .portrait _ => True

namespace Stage

/-- What was observed, what is left for others and what was reported is proper. -/
structure Proper (s : Stage) : Prop where
  trace : ∀ e ∈ s.trace, e.Proper
  requests : ∀ r ∈ s.requests, r.Filled
  events : ∀ e ∈ s.events, e.Filled

theorem ofVariables_proper (vars : Variables) : (ofVariables vars).Proper :=
  ⟨List.forall_mem_nil _, List.forall_mem_nil _, List.forall_mem_nil _⟩

namespace Proper

variable {s : Stage}

theorem observe (h : s.Proper) {t : Trace} (ht : ∀ e ∈ t, e.Proper) : (s.observe t).Proper :=
  ⟨List.forall_mem_append.2 ⟨h.trace, ht⟩, h.requests, h.events⟩

theorem entry (h : s.Proper) (e : Entry) (he : e.Proper) : (s.observe [e]).Proper :=
  h.observe (List.forall_mem_singleton.2 he)

theorem annotate (h : s.Proper) {ns : List Note} (hn : ∀ n ∈ ns, ¬ n.Astray) :
    (s.annotate ns).Proper :=
  h.observe (Entry.proper_of_notes hn)

theorem report (h : s.Proper) {e : Event} (he : e.Filled) : (s.report e).Proper :=
  ⟨h.trace, h.requests, List.forall_mem_append.2 ⟨h.events, List.forall_mem_singleton.2 he⟩⟩

theorem leave (h : s.Proper) {r : Request} (hr : r.Filled) : (s.leave r).Proper :=
  ⟨h.trace, List.forall_mem_append.2 ⟨h.requests, List.forall_mem_singleton.2 hr⟩, h.events⟩

theorem update (h : s.Proper) {α : Type} {u : Variables.Update α} (hu : ∀ e ∈ u.trace, e.Proper) :
    (s.update u).Proper :=
  ⟨List.forall_mem_append.2 ⟨h.trace, hu⟩, h.requests, h.events⟩

theorem read (h : s.Proper) (raw : String) : (s.read raw).2.Proper :=
  ⟨List.forall_mem_append.2 ⟨h.trace, ofText_proper s.vars raw⟩, h.requests, h.events⟩

theorem startingPoint (h : s.Proper) (c : Conversation) : (s.startingPoint c).2.Proper :=
  h.annotate (Conversation.not_astray_bestStart s.vars c.dialogues none)

theorem portrait (h : s.Proper) (setting : Setting) (set sprite : String) :
    (s.portrait setting set sprite).2.Proper :=
  h.annotate (setting.sprites.not_astray_resolve .character set sprite)

/-- The game may change the variables. -/
theorem vary (h : s.Proper) (v : VariableCall) : (s.vary v).Proper := by
  cases v with
  | register name v => exact h.update (s.vars.announce_proper _)
  | registerText name raw kind => exact h.update (s.vars.registerText_proper name raw kind)
  | remove name => exact h.update (s.vars.remove_proper name)
  | subscribe => exact ⟨h.trace, h.requests, h.events⟩

variable (setting : Setting) (declared : List Action)

theorem fire (h : s.Proper) (name : String) (supplied : Supplied) :
    (s.fire setting declared name supplied).2.Proper :=
  h.observe (Action.performNamed_proper setting.accepts declared name supplied).trace

end Proper

variable (s : Stage) (setting : Setting) (declared : List Action)

/-- What an action asks for has the name that it needs. -/
theorem filled_of_fire {name : String} {supplied : Supplied} {r : Request}
    (h : (s.fire setting declared name supplied).1 = some r) : r.Filled := by
  refine (Action.performNamed_proper setting.accepts declared name supplied).request r ?_
  unfold fire at h
  dsimp only at h
  cases hr : (Action.performNamed setting.accepts declared name supplied).result with
  | error e =>
    rw [hr] at h
    cases h
  | ok request? =>
    rw [hr] at h
    exact congrArg Except.ok h

variable {s} in
/-- Carrying out a command that has the value that it needs is proper, and so is what is left to
do. -/
theorem Proper.carryOut (h : s.Proper) (k : Clock) {c : Command} (hc : c.Filled) :
    (s.carryOut setting declared k c).stage.Proper ∧
      (s.carryOut setting declared k c).followUp.Filled := by
  cases c with
  | speed factor | wait seconds | hideSprite => exact ⟨h, trivial⟩
  | removeVariable name => exact ⟨h.update (s.vars.remove_proper name), trivial⟩
  | log severity text => exact ⟨h.entry _ hc, trivial⟩
  | sendMessage target message =>
    refine ⟨?_, trivial⟩
    unfold Stage.carryOut
    dsimp only
    split
    case isTrue => exact h.annotate (Note.warning_not_astray ⟨_, rfl, by decide⟩)
    case isFalse hm => exact h.observe (Action.deliver_proper setting.accepts hc hm)
  | perform name supplied =>
    refine ⟨h.fire setting declared name supplied, ?_⟩
    unfold Stage.carryOut
    dsimp only
    cases hr : (s.fire setting declared name supplied).1 with
    | none => trivial
    | some r => exact s.filled_of_fire setting declared hr
  | closeBackgroundConversations => exact ⟨h, trivial⟩
  | startBackgroundConversation name => exact ⟨h, hc⟩
  | changeSprite set sprite =>
    refine ⟨h.portrait setting set sprite, ?_⟩
    unfold Stage.carryOut
    dsimp only
    split <;> trivial
  | changeTheme name => exact ⟨h, hc⟩

end Stage

/-! ## The reveal of a sentence -/

/-- Each tag that is to come in a reveal has the value that it needs. -/
def Reveal.Filled (r : Reveal) : Prop := ∀ c, .tag c ∈ r.pending → c.Filled

theorem Reveal.filled_ofSentence (vars : Variables) (raw : String)
    (charDelay initialDelay : Single) :
    (ofSentence (Reading.ofText vars raw).sentence charDelay initialDelay).Filled :=
  fun _ h => filled_of_mem_beats h

/-- What is kept as characters are revealed and tags come due is kept by a run, and a run that is
held back has only beats to come that were to come before. -/
theorem Reveal.runBeats_keeps {σ : Type} {h : Handler σ} {P : σ → Prop} (bs : List Beat)
    (hcharacter : ∀ s, P s → P (h.onCharacter s))
    (htag : ∀ c, .tag c ∈ bs → ∀ k s, P s → P (h.onTag c k s).2) :
    ∀ (n : Nat) (k : Clock) (s : σ), P s → P (runBeats h bs n k s).2 ∧
      ∀ r, (runBeats h bs n k s).1 = .waiting r → ∀ c, .tag c ∈ r.pending → .tag c ∈ bs := by
  induction bs with
  | nil =>
    intro n k s hs
    unfold runBeats
    split
    · refine ⟨hs, fun r hr => ?_⟩
      cases hr
      exact fun _ hc => hc
    · exact ⟨hs, fun _ hr => by cases hr⟩
  | cons b bs ih =>
    have hlater := ih fun c hc => htag c (List.mem_cons_of_mem _ hc)
    intro n k s hs
    cases b with
    | character x =>
      unfold runBeats
      split
      · refine ⟨hs, fun r hr => ?_⟩
        cases hr
        exact fun _ hc => hc
      · obtain ⟨hp, hpending⟩ := hlater (n + 1) k.afterCharacter _ (hcharacter s hs)
        exact ⟨hp, fun r hr c hc => List.mem_cons_of_mem _ (hpending r hr c hc)⟩
    | tag x =>
      unfold runBeats
      split
      · refine ⟨hs, fun r hr => ?_⟩
        cases hr
        exact fun _ hc => hc
      · have hdue := htag x (List.mem_cons_self ..) k s hs
        rcases hx : h.onTag x k s with ⟨_ | k', s'⟩ <;> rw [hx] at hdue
        · exact ⟨hdue, fun _ hr => by cases hr⟩
        · obtain ⟨hp, hpending⟩ := hlater n k' s' hdue
          exact ⟨hp, fun r hr c hc => List.mem_cons_of_mem _ (hpending r hr c hc)⟩

/-! ## The main performance -/

/-- The script is sound, and every tag that is to come has the value that it needs. -/
structure Performance.Apt (q : Performance) : Prop where
  sound : q.Sound
  reveal : ∀ r, q.phase = .revealing r → r.Filled

namespace Player

/-- Whatever is performed is apt to be. -/
def Apt (p : Player) : Prop := ∀ q, p.playing = some q → q.Apt

/-- A player and a stage on which all has been proper. -/
structure Proper (x : Player × Stage) : Prop where
  apt : x.1.Apt
  stage : x.2.Proper

variable {p : Player} {s : Stage}

theorem apt_put {q : Performance} (h : q.Apt) : (p.put q).Apt := by
  intro r hr
  cases hr
  exact h

theorem changeTheme_proper (hp : p.Apt) (hs : s.Proper) {theme : String}
    (h : ¬ Text.IsBlank theme) : Proper (p.changeTheme theme s) :=
  ⟨hp, (hs.entry (.theme theme) h).report h⟩

theorem stop_proper (hp : p.Apt) (hs : s.Proper) : Proper (p.stop s) := by
  unfold stop
  split
  · refine ⟨fun _ hq => ?_, (hs.entry (.close .main) trivial).report trivial⟩
    cases hq
  · exact ⟨hp, hs⟩

theorem answer_proper (hp : p.Apt) (hs : s.Proper) {r : Request} (h : r.Filled) :
    Proper (p.answer r s) := by
  cases r with
  | closeConversation => exact stop_proper hp hs
  | changeTheme theme => exact changeTheme_proper hp hs h
  | startBackgroundConversation name | closeBackgroundConversations => exact ⟨hp, hs.leave h⟩

variable (setting : Setting)

theorem fireAll_proper (declared : List Action) (names : List String) :
    ∀ {p : Player} {s : Stage}, p.Apt → s.Proper →
      Proper (fireAll setting declared names p s) := by
  induction names with
  | nil => exact fun hp hs => ⟨hp, hs⟩
  | cons name names ih =>
    intro p s hp hs
    have hfired := hs.fire setting declared name .nothing
    rw [fireAll]
    dsimp only
    cases hr : (s.fire setting declared name .nothing).1 with
    | none => exact ih hp hfired
    | some r =>
      have hanswered := answer_proper hp hfired (s.filled_of_fire setting declared hr)
      dsimp only
      split
      · exact ih hanswered.apt hanswered.stage
      · exact hanswered

theorem dress_proper (hp : p.Apt) (hs : s.Proper) (d : Dialogue) : Proper (p.dress d s) := by
  unfold dress
  split
  · split
    · exact ⟨hp, hs⟩
    · exact changeTheme_proper hp hs (Dialogue.theme?_filled ‹_›)
  · exact ⟨hp, hs⟩

theorem introduce_proper (hs : s.Proper) (d : Dialogue) : (introduce setting d s).Proper := by
  unfold introduce portraitOf
  dsimp only
  split
  · exact ((hs.entry (.speaker ..) trivial).portrait setting _ _).entry _ trivial
  · exact (hs.entry (.speaker ..) trivial).entry _ trivial

theorem say_proper {q : Performance} (hq : q.Sound) (raw : String) (hp : p.Apt) (hs : s.Proper) :
    Proper (p.say setting q raw s) := by
  obtain ⟨-, hdressed⟩ := dress_proper hp hs q.dialogue
  have hread := hdressed.read raw
  refine ⟨fun r hr => ?_, ?_⟩
  · rw [playing_say] at hr
    cases hr
    refine ⟨⟨hq.script, hq.dialogue⟩, fun r hr => ?_⟩
    cases hr
    exact Reveal.filled_ofSentence s.vars raw _ _
  · unfold say
    dsimp only
    split
    · exact hread.entry _ trivial
    · exact introduce_proper setting (hread.entry (.sentence ..) trivial) _

theorem offer_proper {q : Performance} (hq : q.Sound) (hs : s.Proper) :
    Proper (p.offer q s) :=
  ⟨apt_put ⟨⟨hq.script, hq.dialogue⟩, fun _ hr => by cases hr⟩, hs.entry _ trivial⟩

theorem finish_proper (q : Performance) (hp : p.Apt) (hs : s.Proper) :
    Proper (p.finish setting q s) := by
  obtain ⟨hfired, hstage⟩ := fireAll_proper setting q.script.actions q.dialogue.onFinished hp hs
  exact stop_proper hfired hstage

theorem stay_proper {q : Performance} (hq : q.Sound) (hp : p.Apt) (hs : s.Proper) :
    Proper (p.stay setting q s) := by
  unfold stay
  split
  · exact say_proper setting hq _ hp hs
  · exact offer_proper hq hs
  · exact finish_proper setting q hp hs
  · exact finish_proper setting q hp hs

theorem enter_proper {q : Performance} (hq : q.script.Sound) {d : Dialogue}
    (hd : d ∈ q.script.dialogues) (hp : p.Apt) (hs : s.Proper) :
    Proper (p.enter setting q d s) := by
  obtain ⟨raw, -, h⟩ := Lead.enter_eq setting hq hd p s
  rw [h]
  exact say_proper setting (q := q.move d) ⟨hq, hd⟩ raw hp hs

/-- There is a dialogue to go to. -/
theorem goTo_proper {q : Performance} (hq : q.Sound) {id : Int32} {d : Dialogue}
    (hd : q.script.dialogue? id = some d) (hp : p.Apt) (hs : s.Proper) :
    Proper ((p.goTo setting q id s).player, (p.goTo setting q id s).stage) := by
  obtain ⟨raw, -, h⟩ := Lead.goTo_eq setting hq hd p s
  rw [h]
  exact say_proper setting (q := q.move d) ⟨hq.script, (Conversation.mem_of_dialogue? hd).1⟩ raw
    hp hs

theorem advance_proper {q : Performance} (hq : q.Sound) (hp : p.Apt) (hs : s.Proper) :
    Proper (p.advance setting q s) := by
  unfold advance
  split
  · obtain ⟨d, hd⟩ := hq.exists_of_link ‹_›
    exact goTo_proper setting hq hd hp hs
  · exact stay_proper setting hq hp hs

theorem refuse_proper {e : PlaybackError} {text : String} (h : Text.Apart text) (hp : p.Apt)
    (hs : s.Proper) :
    Proper ((p.refuse e (.warning text) s).player, (p.refuse e (.warning text) s).stage) :=
  ⟨hp, hs.annotate (Note.warning_not_astray h)⟩

theorem start_proper (name : String) {script : Conversation} (hc : script.Sound) (hp : p.Apt)
    (hs : s.Proper) :
    Proper ((p.start setting name script s).player, (p.start setting name script s).stage) := by
  have hfound := hs.startingPoint script
  unfold start
  split
  · exact refuse_proper (.append ⟨_, rfl, by decide⟩) hp hs
  · rcases hd : s.startingPoint script with ⟨_ | d, s'⟩
    · rw [hd] at hfound
      refine ⟨hp, hfound.annotate (Note.failure_not_astray ?_)⟩
      exact .append (.append ⟨_, rfl, by decide⟩)
    · rw [hd] at hfound
      let q : Performance := { name, script, dialogue := d }
      have hmem : d ∈ q.script.dialogues :=
        Conversation.mem_of_startingPoint (congrArg Prod.fst hd)
      have hapt : (p.put q).Apt := apt_put ⟨⟨hc, hmem⟩, fun _ hr => by cases hr⟩
      exact enter_proper setting (q := q) hc hmem hapt (hfound.report trivial)

theorem next_proper (hp : p.Apt) (hs : s.Proper) :
    Proper ((p.next setting s).player, (p.next setting s).stage) := by
  unfold next
  cases hq : p.playing with
  | none => exact ⟨hp, hs⟩
  | some q =>
    dsimp only
    cases hphase : q.phase with
    | choosing | revealing r => exact refuse_proper (.append ⟨_, rfl, by decide⟩) hp hs
    | settled => exact advance_proper setting (hp q hq).sound hp hs

theorem choose_proper {q : Performance} (hq : q.Sound) {index : Nat} {c : Choice}
    (hc : q.dialogue.choices[index]? = some c) (hp : p.Apt) (hs : s.Proper) :
    Proper ((p.choose setting q c s).player, (p.choose setting q c s).stage) := by
  have hfired := fireAll_proper setting q.script.actions c.actions hp hs
  unfold choose
  split
  rename_i p' s' h
  rw [h] at hfired
  obtain ⟨hp', hs'⟩ := hfired
  split
  · obtain ⟨d, hd⟩ := hq.exists_of_choice hc ‹_›
    exact goTo_proper setting hq hd hp' hs'
  · exact stop_proper hp' hs'

theorem select_proper (index : Nat) (hp : p.Apt) (hs : s.Proper) :
    Proper ((p.select setting index s).player, (p.select setting index s).stage) := by
  unfold select
  cases hq : p.playing with
  | none => exact ⟨hp, hs⟩
  | some q =>
    dsimp only
    split
    · cases hc : q.dialogue.choices[index]? with
      | none =>
        exact refuse_proper (.append (.append (.append (.append ⟨_, rfl, by decide⟩)))) hp hs
      | some c => exact choose_proper setting (hp q hq).sound hc hp hs
    · exact refuse_proper (.append (.append (.append ⟨_, rfl, by decide⟩))) hp hs

theorem followUp_proper {f : FollowUp} (hf : f.Filled) (hp : p.Apt) (hs : s.Proper) :
    Proper (p.followUp s f) := by
  cases f with
  | done => exact ⟨hp, hs⟩
  | request r => exact answer_proper hp hs hf
  | portrait image? => exact ⟨hp, hs.entry _ trivial⟩
  | theme theme => exact changeTheme_proper hp hs hf

/-- While a sentence is revealed all is proper, and so are the tags that are still to come. -/
theorem run_proper (declared : List Action) {r : Reveal} (hr : r.Filled) (hp : p.Apt)
    (hs : s.Proper) :
    Proper (r.run (handler setting declared) (p, s)).2 ∧
      ∀ r', (r.run (handler setting declared) (p, s)).1 = .waiting r' → r'.Filled := by
  obtain ⟨hproper, hpending⟩ := Reveal.runBeats_keeps (h := handler setting declared) (P := Proper)
    r.pending (fun x hx => ⟨hx.apt, hx.stage.entry _ trivial⟩)
    (fun c hc k x hx => by
      obtain ⟨hstage, hleft⟩ := hx.stage.carryOut setting declared k (hr c hc)
      exact followUp_proper hleft hx.apt hstage)
    r.revealed r.clock (p, s) ⟨hp, hs⟩
  exact ⟨hproper, fun r' hr' c hc => hr c (hpending r' hr' c hc)⟩

theorem tick_proper (dt : Single) (hp : p.Apt) (hs : s.Proper) :
    Proper (p.tick setting dt s) := by
  unfold tick
  split
  · exact ⟨hp, hs⟩
  · rename_i q r h
    obtain ⟨q', hq, hr⟩ := Option.bind_eq_some_iff.1 h
    obtain ⟨r', hr, heq⟩ := Option.map_eq_some_iff.1 hr
    cases heq
    have hreveal : r.Filled := by
      refine (hp q hq).reveal r ?_
      unfold Performance.reveal? at hr
      split at hr
      · cases hr
        assumption
      · cases hr
    have hsound := (hp q hq).sound
    obtain ⟨hrun, hwaiting⟩ :=
      run_proper setting q.script.actions (r := r.elapse dt) hreveal hp hs
    split
    · rename_i r' p' s' heq
      rw [heq] at hrun hwaiting
      refine ⟨apt_put ⟨⟨hsound.script, hsound.dialogue⟩, fun r hr => ?_⟩, hrun.stage⟩
      cases hr
      exact hwaiting _ rfl
    · rename_i p' s' heq
      rw [heq] at hrun
      exact hrun
    · rename_i p' s' heq
      rw [heq] at hrun
      have hsettled : Player.Apt (p'.put { q with phase := .settled }) :=
        apt_put ⟨⟨hsound.script, hsound.dialogue⟩, fun _ hr => by cases hr⟩
      have hrevealed := hrun.stage.entry (.revealed .main) trivial
      dsimp only
      split
      · exact advance_proper setting (q := { q with phase := .settled })
          ⟨hsound.script, hsound.dialogue⟩ hsettled hrevealed
      · exact ⟨hsettled, hrevealed⟩

end Player

/-! ## Background conversations -/

namespace Background

/-- The script is sound, and every tag that is to come has the value that it needs. -/
structure Apt (b : Background) : Prop where
  sound : b.Sound
  reveal : ∀ r, b.phase = .revealing r → r.Filled

/-- A background conversation and a stage on which all has been proper. -/
structure Proper (x : Background × Stage) : Prop where
  apt : x.1.Apt
  stage : x.2.Proper

variable {b : Background} {s : Stage}

theorem finish_proper (hb : b.Apt) (hs : s.Proper) : Proper (b.finish s) := by
  unfold finish
  split
  · exact ⟨hb, hs⟩
  · refine ⟨⟨⟨hb.sound.script, hb.sound.dialogue⟩, fun _ hr => ?_⟩,
      (hs.entry (.close b.channel) trivial).report trivial⟩
    cases hr

variable (setting : Setting)

theorem say_proper (hb : b.Sound) (raw : String) (hs : s.Proper) :
    Proper (b.say setting raw s) := by
  refine ⟨⟨⟨hb.script, hb.dialogue⟩, fun r hr => ?_⟩, (hs.read raw).entry _ trivial⟩
  cases hr
  exact Reveal.filled_ofSentence s.vars raw _ _

theorem visit_stage_proper (first : Bool) (hs : s.Proper) (d : Dialogue) :
    (b.visit first s d).2.Proper := by
  unfold visit
  dsimp only
  split
  · split
    · exact hs
    · exact hs.entry _ trivial
  · exact hs

theorem enter_proper (first : Bool) (hc : b.script.Sound) {d : Dialogue}
    (hd : d ∈ b.script.dialogues) (hs : s.Proper) : Proper (b.enter setting first d s) := by
  obtain ⟨raw, -, h⟩ := b.enter_eq setting first hc hd s
  obtain ⟨anchor, moved, hv⟩ := b.visit_fst first s d
  rw [h]
  refine say_proper setting ?_ raw (visit_stage_proper first hs d)
  rw [hv]
  exact ⟨hc, hd⟩

theorem advance_proper (hb : b.Apt) (hs : s.Proper) : Proper (b.advance setting s) := by
  unfold advance
  split
  · obtain ⟨d, hd⟩ := hb.sound.exists_of_link ‹_›
    rw [hd]
    exact enter_proper setting false hb.sound.script (Conversation.mem_of_dialogue? hd).1 hs
  · unfold stay
    split
    · exact say_proper setting hb.sound _ hs
    · exact finish_proper hb hs

theorem start_proper (id : Nat) (name : String) {script : Conversation} (hc : script.Sound)
    (hs : s.Proper) :
    (∀ b, (Background.start setting id name script s).1 = .ok b → b.Apt) ∧
      (Background.start setting id name script s).2.Proper := by
  have hfound := hs.startingPoint script
  unfold Background.start
  rcases hd : s.startingPoint script with ⟨_ | d, s'⟩
  · rw [hd] at hfound
    refine ⟨fun b hb => (by cases hb), hfound.annotate (Note.failure_not_astray ?_)⟩
    exact .append (.append ⟨_, rfl, by decide⟩)
  · rw [hd] at hfound
    let b : Background := { id, name, script, dialogue := d }
    have hmem : d ∈ b.script.dialogues :=
      Conversation.mem_of_startingPoint (congrArg Prod.fst hd)
    obtain ⟨hentered, hstage⟩ := enter_proper setting (b := b) true hc hmem
      (hfound.report (e := .backgroundStarted id name) trivial)
    refine ⟨fun b' hb' => ?_, hstage⟩
    cases hb'
    exact hentered

theorem followUp_proper {f : FollowUp} (hf : f.Filled) (hb : b.Apt) (hs : s.Proper) :
    Proper (b.followUp s f) := by
  unfold followUp
  split
  · obtain ⟨hfinished, hstage⟩ := finish_proper hb hs
    exact ⟨hfinished, hstage.leave trivial⟩
  · exact ⟨hb, hs.leave hf⟩
  all_goals exact ⟨hb, hs⟩

/-- While a sentence is revealed all is proper, and so are the tags that are still to come. -/
theorem run_proper (declared : List Action) {r : Reveal} (hr : r.Filled) (hb : b.Apt)
    (hs : s.Proper) :
    Proper (r.run (handler setting declared) (b, s)).2 ∧
      ∀ r', (r.run (handler setting declared) (b, s)).1 = .waiting r' → r'.Filled := by
  obtain ⟨hproper, hpending⟩ := Reveal.runBeats_keeps (h := handler setting declared) (P := Proper)
    r.pending (fun x hx => ⟨hx.apt, hx.stage.entry _ trivial⟩)
    (fun c hc k x hx => by
      obtain ⟨hstage, hleft⟩ := hx.stage.carryOut setting declared k (hr c hc)
      exact followUp_proper hleft hx.apt hstage)
    r.revealed r.clock (b, s) ⟨hb, hs⟩
  exact ⟨hproper, fun r' hr' c hc => hr c (hpending r' hr' c hc)⟩

theorem tick_proper (dt : Single) (hb : b.Apt) (hs : s.Proper) : Proper (b.tick setting dt s) := by
  unfold tick
  split
  · exact ⟨hb, hs⟩
  · rename_i remaining _
    have hheld : Apt { b with phase := .holding (remaining - dt) } :=
      ⟨⟨hb.sound.script, hb.sound.dialogue⟩, fun _ hr => by cases hr⟩
    dsimp only
    split
    · exact advance_proper setting hheld hs
    · exact ⟨hheld, hs⟩
  · rename_i r hphase
    obtain ⟨hrun, hwaiting⟩ := run_proper setting b.script.actions (r := r.elapse dt)
      (hb.reveal r hphase) hb hs
    split
    · rename_i r' b' s' heq
      rw [heq] at hrun hwaiting
      obtain ⟨⟨hsound, -⟩, hstage⟩ := hrun
      refine ⟨⟨⟨hsound.script, hsound.dialogue⟩, fun r hr => ?_⟩, hstage⟩
      cases hr
      exact hwaiting _ rfl
    · rename_i b' s' heq
      rw [heq] at hrun
      exact hrun
    · rename_i b' s' heq
      rw [heq] at hrun
      obtain ⟨⟨hsound, -⟩, hstage⟩ := hrun
      refine ⟨⟨⟨hsound.script, hsound.dialogue⟩, fun r hr => ?_⟩, hstage.entry _ trivial⟩
      cases hr

end Background

end Colloquy
