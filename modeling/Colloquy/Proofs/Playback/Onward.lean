import Colloquy.Proofs.Playback.Traveller
import Colloquy.Proofs.Playback.Whereabouts

/-!
# Proofs/Playback/Onward — performers go on as far as the links lead

Performers follow trails, which are found to end or not beforehand, where a traveller goes on and on
(`Traveller`). They do what that comes to (`Player.goOn_of_goes`, `Background.goOn_of_goes`), unless
it meets an empty circle.

A call has a performer set off once, or not at all and leaves it where it is. In a script that
passed the check no dialogue is empty, and no call follows more than one link.
-/

namespace Colloquy

/-! ## The main performance -/

/-- There is nothing to show in a dialogue: no sentence and no choice. -/
def Dialogue.Empty (d : Dialogue) : Prop := d.sentences = [] ∧ d.choices = []

theorem Dialogue.outlook_zero_eq_link_iff {d : Dialogue} {id : Int32} :
    d.outlook 0 = .link id ↔ d.Empty ∧ d.next? = some id := by
  constructor
  · intro h
    obtain ⟨hs, hc, hn⟩ := outlook_eq_link h
    exact ⟨⟨List.eq_nil_of_length_eq_zero (Nat.le_zero.1 hs), hc⟩, hn⟩
  · rintro ⟨⟨hs, hc⟩, hn⟩
    simp [outlook, hs, hc, hn]

namespace Player

variable {setting : Setting} {q : Performance} {p : Player} {s : Stage}

/-- A player as it goes on in a performance. -/
def traveller (setting : Setting) : Traveller (Performance × Player × Stage) (Player × Stage) where
  script x := x.1.script
  dialogue x := x.1.dialogue
  outlook x := x.1.dialogue.outlook x.1.said
  enter x d := (x.1.move d, x.2)
  rest x := x.2.1.stay setting x.1 x.2.2
  lost x id := x.2.1.fail (.failure (PlaybackError.dialogueNotFound id).message) x.2.2
  entry d := d.outlook 0
  Empty := Dialogue.Empty
  script_enter _ _ := rfl
  outlook_enter _ _ := rfl
  entry_eq_link_iff := Dialogue.outlook_zero_eq_link_iff
  next_of_outlook h := (Dialogue.outlook_eq_link h).2.2

/-- What a player does on an errand. -/
def goOn (setting : Setting) (x : Performance × Player × Stage) : Errand → Player × Stage
  | .onward => x.2.1.advance setting x.1 x.2.2
  | .goTo id => ((x.2.1.goTo setting x.1 id x.2.2).player, (x.2.1.goTo setting x.1 id x.2.2).stage)

theorem advance_of_rest (h : ∀ id, q.dialogue.outlook q.said ≠ .link id) :
    p.advance setting q s = p.stay setting q s := by
  unfold advance
  split
  · exact absurd ‹_› (h _)
  · rfl

theorem advance_of_link {id : Int32} (h : q.dialogue.outlook q.said = .link id) :
    p.advance setting q s = goOn setting (q, p, s) (.goTo id) := by
  rw [advance, h]
  rfl

/-- Whoever enters a dialogue goes on from its beginning. -/
theorem enter_eq_advance {d : Dialogue} (hd : d ∈ q.script.dialogues) :
    p.enter setting q d s = p.advance setting (q.move d) s := by
  by_cases hlink : ∃ id, d.outlook 0 = .link id
  · obtain ⟨id, hid⟩ := hlink
    rw [advance_of_link (q := q.move d) hid]
    cases he : q.script.dialogue? id with
    | none =>
      have htrail : q.script.trail? (·.outlook 0) d = some ⟨[d], .missing id⟩ :=
        (Conversation.trail?_eq_some_iff hd).2 (.lost hid he)
      have hgo : (q.move d).script.dialogue? id = none := he
      rw [enter, htrail]
      simp only [goOn, goTo, hgo]
    | some e =>
      have hfollows : q.script.Follows (·.outlook 0) d e := ⟨id, hid, he⟩
      have hgo : (q.move d).script.dialogue? id = some e := he
      rw [enter, Conversation.trail?_of_follows hd hfollows]
      simp only [goOn, goTo, hgo, enter]
      rw [show (q.move d).script = q.script from rfl]
      rcases q.script.trail? (·.outlook 0) e with _ | ⟨passed, _ | _⟩ <;> rfl
  · have hrest : ∀ id, d.outlook 0 ≠ .link id := fun id hid => hlink ⟨id, hid⟩
    have htrail : q.script.trail? (·.outlook 0) d = some ⟨[], .at d⟩ :=
      (Conversation.trail?_eq_some_iff hd).2 (.stay hrest)
    rw [enter, htrail, advance_of_rest (q := q.move d) hrest]

/-- **A player does what its errand comes to.** -/
theorem goOn_of_goes {e : Errand} {x : Performance × Player × Stage} {n : Nat}
    {r : Player × Stage} (h : (traveller setting).Goes e x n r) : goOn setting x e = r := by
  induction h with
  | rest h => exact advance_of_rest h
  | link h _ ih => exact (advance_of_link h).trans ih
  | lost hno =>
    simp only [traveller] at hno
    simp only [goOn, goTo, hno]
    rfl
  | enter hd _ ih =>
    simp only [traveller] at hd
    simp only [goOn, goTo, hd]
    exact (enter_eq_advance (Conversation.mem_of_dialogue? hd).1).trans ih

/-! ### Where calls set off -/

/-- Where a call has a player set off, and on which errand, if it does. -/
def departure? (setting : Setting) (p : Player) (s : Stage) :
    PlayerCall → Option (Errand × Performance × Player × Stage)
  | .start name script =>
    if p.playing.isSome then none
    else
      match s.startingPoint script with
      | (none, _) => none
      | (some d, s) =>
        let q : Performance := { name, script, dialogue := d }
        some (.onward, q, { p with playing := some q }, s.report (.conversationStarted name))
  | .next =>
    match p.playing with
    | none => none
    | some q => if q.phase = .settled then some (.onward, q, p, s) else none
  | .select index =>
    match p.playing with
    | none => none
    | some q =>
      if q.phase = .choosing then
        match q.dialogue.choices[index]? with
        | none => none
        | some c =>
          let (p, s) := fireAll setting q.script.actions c.actions p s
          match p.playing, c.next? with
          | some _, some id => some (.goTo id, q, p, s)
          | _, _ => none
      else none
  | .stop | .theme _ => none
  | .tick dt =>
    match p.playing.bind fun q => q.reveal?.map fun r => (q, r) with
    | none => none
    | some (q, r) =>
      match (r.elapse dt).run (handler setting q.script.actions) (p, s) with
      | (.finished, p, s) =>
        let q := { q with phase := .settled }
        if q.dialogue.autoProceed then
          some (.onward, q, { p with playing := some q }, s.observe [.revealed .main])
        else none
      | _ => none

/-- What is known of a call that has a player set off. -/
structure SetsOff (setting : Setting) (p : Player) (s : Stage) (c : PlayerCall) (e : Errand)
    (x : Performance × Player × Stage) : Prop where
  /-- It comes to what the errand comes to. -/
  call_eq : p.call setting s c = goOn setting x e
  /-- The script is the one to start with, or the one that is performed. -/
  script : (∃ name, c = .start name x.1.script) ∨
    ∃ q, p.playing = some q ∧ x.1.script = q.script
  dialogue : (∀ q, p.playing = some q → q.dialogue ∈ q.script.dialogues) →
    x.1.dialogue ∈ x.1.script.dialogues
  /-- Only a choice has a player go to a dialogue at once. -/
  choices : ∀ id, e = .goTo id → x.1.dialogue.choices ≠ []

theorem setsOff_of_departure {c : PlayerCall} {e : Errand} {x : Performance × Player × Stage}
    (h : p.departure? setting s c = some (e, x)) : p.SetsOff setting s c e x := by
  cases c with
  | start name script =>
    rw [departure?] at h
    split at h
    case isTrue => cases h
    case isFalse hidle =>
      split at h
      case h_1 => cases h
      case h_2 d s' hd =>
        cases h
        have hmem : d ∈ script.dialogues :=
          Conversation.mem_of_startingPoint (congrArg Prod.fst hd)
        refine ⟨?_, .inl ⟨name, rfl⟩, fun _ => hmem, fun _ he => ?_⟩
        · simp only [call, start, if_neg hidle, hd]
          exact enter_eq_advance (q := { name, script, dialogue := d }) hmem
        · cases he
  | next =>
    rw [departure?] at h
    split at h
    case h_1 => cases h
    case h_2 q hq =>
      split at h
      case isTrue hsettled =>
        cases h
        refine ⟨?_, .inr ⟨q, hq, rfl⟩, fun hmem => hmem q hq, fun _ he => ?_⟩
        · simp only [call, next, hq, hsettled]
          rfl
        · cases he
      case isFalse => cases h
  | select index =>
    rw [departure?] at h
    split at h
    case h_1 => cases h
    case h_2 q hq =>
      split at h
      case isFalse => cases h
      case isTrue hchoosing =>
        split at h
        case h_1 => cases h
        case h_2 c hc =>
          dsimp only at h
          split at h
          case h_2 => cases h
          case h_1 id hp hid =>
            cases h
            refine ⟨?_, .inr ⟨q, hq, rfl⟩, fun hmem => hmem q hq, fun _ _ => ?_⟩
            · simp only [call, select, hq, if_pos hchoosing, hc, choose, hp, hid]
              rfl
            · exact List.ne_nil_of_mem (List.mem_of_getElem? hc)
  | stop => cases h
  | theme => cases h
  | tick dt =>
    rw [departure?] at h
    split at h
    case h_1 => cases h
    case h_2 q r hr =>
      obtain ⟨q', hq, hqr⟩ := Option.bind_eq_some_iff.1 hr
      obtain ⟨r', -, heq⟩ := Option.map_eq_some_iff.1 hqr
      cases heq
      split at h
      case h_1 p' s' hrun =>
        dsimp only at h
        split at h
        case isTrue hauto =>
          cases h
          refine ⟨?_, .inr ⟨q, hq, rfl⟩, fun hmem => hmem q hq, fun _ he => ?_⟩
          · simp only [call, tick, hr, hrun, if_pos hauto]
            rfl
          · cases he
        case isFalse => cases h
      case h_2 => cases h

theorem playing_stop (p : Player) (s : Stage) : (p.stop s).1.playing = none := by
  cases h : p.playing with
  | none => rw [stop_of_idle h, h]
  | some q => rw [stop_of_playing h]

/-- A choice after which there is no way on ends the conversation. -/
theorem playing_choose_of_over {c : Choice}
    (h : ∀ q' id, (fireAll setting q.script.actions c.actions p s).1.playing = some q' →
      c.next? = some id → False) : (p.choose setting q c s).player.playing = none := by
  unfold choose
  dsimp only
  split
  case h_1 id hp hid => exact absurd hid (h _ id hp)
  case h_2 => exact playing_stop _ _

/-- A performance that is where it was before, after as many sentences of the dialogue. -/
def Remains (p p' : Player) : Prop :=
  ∀ q', p'.playing = some q' → ∃ q, p.playing = some q ∧ q'.script = q.script ∧
    q'.dialogue = q.dialogue ∧ q'.sentenceIndex? = q.sentenceIndex?

theorem remains_of_playing {p' : Player} (h : p'.playing = p.playing) : p.Remains p' :=
  fun q hq => ⟨q, h ▸ hq, rfl, rfl, rfl⟩

theorem remains_of_idle {p' : Player} (h : p'.playing = none) : p.Remains p' := by
  intro q hq
  rw [h] at hq
  cases hq

/-- A call that does not have a player set off leaves it where it is, unless it ends. -/
theorem remains_of_departure {c : PlayerCall} (h : p.departure? setting s c = none) :
    p.Remains (p.call setting s c).1 := by
  cases c with
  | start name script =>
    rw [departure?] at h
    split at h
    case isTrue hplaying =>
      refine remains_of_playing ?_
      simp only [call, start, if_pos hplaying]
      rfl
    case isFalse hidle =>
      split at h
      case h_1 hd =>
        refine remains_of_playing ?_
        simp only [call, start, if_neg hidle, hd]
        rfl
      case h_2 => cases h
  | next =>
    refine remains_of_playing ?_
    rw [departure?] at h
    cases hq : p.playing with
    | none =>
      simp only [call, next, hq]
    | some q =>
      rw [hq] at h
      cases hphase : q.phase with
      | settled => cases (if_pos hphase).symm.trans h
      | _ =>
        simp only [call, next, hq, hphase]
        exact hq
  | select index =>
    rw [departure?] at h
    cases hq : p.playing with
    | none =>
      refine remains_of_playing ?_
      simp only [call, select, hq]
    | some q =>
      simp only [hq] at h
      split at h
      case isFalse hphase =>
        refine remains_of_playing ?_
        simp only [call, select, hq, if_neg hphase]
        exact hq
      case isTrue hphase =>
        split at h
        case h_1 hc =>
          refine remains_of_playing ?_
          simp only [call, select, hq, if_pos hphase, hc]
          exact hq
        case h_2 c hc =>
          split at h
          case h_1 => cases h
          case h_2 hover =>
            refine remains_of_idle ?_
            simp only [call, select, hq, if_pos hphase, hc]
            exact playing_choose_of_over hover
  | stop => exact remains_of_idle (playing_stop p s)
  | theme => exact remains_of_playing rfl
  | tick dt =>
    rw [departure?] at h
    split at h
    case h_1 hr =>
      refine remains_of_playing ?_
      simp only [call, tick, hr]
    case h_2 q r hr =>
      obtain ⟨q', hq, hqr⟩ := Option.bind_eq_some_iff.1 hr
      obtain ⟨r', -, heq⟩ := Option.map_eq_some_iff.1 hqr
      cases heq
      have hbroken := playing_of_broken setting q.script.actions (r.elapse dt) (p, s)
      simp only [call, tick, hr]
      generalize (r.elapse dt).run (handler setting q.script.actions) (p, s) = run at h hbroken ⊢
      obtain ⟨_ | _ | _, p', s'⟩ := run
      · rintro q' ⟨⟩
        exact ⟨q, hq, rfl, rfl, rfl⟩
      · dsimp only at h ⊢
        split at h
        case isTrue => cases h
        case isFalse hauto =>
          rw [if_neg hauto]
          rintro q' ⟨⟩
          exact ⟨q, hq, rfl, rfl, rfl⟩
      · exact remains_of_idle (hbroken rfl)

end Player

/-! ## In the background -/

theorem Dialogue.ambientOutlook_zero_eq_link_iff {d : Dialogue} {id : Int32} :
    d.ambientOutlook 0 = .link id ↔ d.sentences = [] ∧ d.next? = some id :=
  outlook_zero_eq_link_iff.trans (and_congr_left' (and_iff_left rfl))

namespace Background

variable {setting : Setting} {b : Background} {s : Stage}

theorem script_visit (first : Bool) (b : Background) (s : Stage) (d : Dialogue) :
    (b.visit first s d).1.script = b.script := by
  obtain ⟨anchor, moved, hv⟩ := b.visit_fst first s d
  rw [hv]

theorem ambientOutlook_visit (first : Bool) (b : Background) (s : Stage) (d : Dialogue) :
    (b.visit first s d).1.dialogue.ambientOutlook (b.visit first s d).1.said =
      d.ambientOutlook 0 := by
  obtain ⟨anchor, moved, hv⟩ := b.visit_fst first s d
  rw [hv]
  rfl

/-- A background conversation as it goes on. Choices are nothing to show. -/
def traveller (setting : Setting) : Traveller (Background × Stage) (Background × Stage) where
  script x := x.1.script
  dialogue x := x.1.dialogue
  outlook x := x.1.dialogue.ambientOutlook x.1.said
  enter x d := x.1.visit false x.2 d
  rest x := x.1.stay setting x.2
  lost x id := x.1.fail (.failure (PlaybackError.dialogueNotFound id).message) x.2
  entry d := d.ambientOutlook 0
  Empty d := d.sentences = []
  script_enter x d := script_visit false x.1 x.2 d
  outlook_enter x d := ambientOutlook_visit false x.1 x.2 d
  entry_eq_link_iff := Dialogue.ambientOutlook_zero_eq_link_iff
  next_of_outlook h := (Dialogue.outlook_eq_link h).2.2

/-- What a background conversation does on an errand. -/
def goOn (setting : Setting) (x : Background × Stage) : Errand → Background × Stage
  | .onward => x.1.advance setting x.2
  | .goTo id =>
    match x.1.script.dialogue? id with
    | some d => x.1.enter setting false d x.2
    | none => x.1.fail (.failure (PlaybackError.dialogueNotFound id).message) x.2

theorem advance_of_rest (h : ∀ id, b.dialogue.ambientOutlook b.said ≠ .link id) :
    b.advance setting s = b.stay setting s := by
  unfold advance
  split
  · exact absurd ‹_› (h _)
  · rfl

theorem advance_of_link {id : Int32} (h : b.dialogue.ambientOutlook b.said = .link id) :
    b.advance setting s = goOn setting (b, s) (.goTo id) := by
  rw [advance, h]
  rfl

/-- Whoever enters a dialogue goes on from its beginning, where that comes to an end. -/
theorem enter_eq_advance {d : Dialogue} (hd : d ∈ b.script.dialogues) {t : Trail}
    (ht : b.script.Arrives (·.ambientOutlook 0) d t) (first : Bool) :
    b.enter setting first d s =
      (b.visit first s d).1.advance setting (b.visit first s d).2 := by
  have houtlook := ambientOutlook_visit first b s d
  have hscript := script_visit first b s d
  rw [enter, (Conversation.trail?_eq_some_iff hd).2 ht]
  cases ht with
  | stay h =>
    rw [advance_of_rest fun id hid => h id (houtlook.symm.trans hid)]
    rfl
  | lost h hno =>
    rw [advance_of_link (houtlook.trans h)]
    simp only [goOn, hscript, hno]
    rfl
  | @pass _ e u hf hu =>
    obtain ⟨id, hid, he⟩ := hf
    have htrail := (Conversation.trail?_eq_some_iff (Conversation.mem_of_dialogue? he).1).2 hu
    rw [advance_of_link (houtlook.trans hid)]
    simp only [goOn, hscript, he, enter, htrail]
    obtain ⟨passed, _ | _⟩ := u <;> rfl

/-- **A background conversation does what its errand comes to.** -/
theorem goOn_of_goes {e : Errand} {x r : Background × Stage} {n : Nat}
    (h : (traveller setting).Goes e x n r) : goOn setting x e = r := by
  induction h with
  | rest h => exact advance_of_rest h
  | link h _ ih => exact (advance_of_link h).trans ih
  | lost hno =>
    simp only [traveller] at hno
    simp only [goOn, hno]
    rfl
  | enter hd hr ih =>
    obtain ⟨t, ht, -⟩ := hr.arrives _ ((traveller setting).outlook_enter _ _)
    rw [(traveller setting).script_enter] at ht
    simp only [traveller] at hd
    simp only [goOn, hd]
    exact (enter_eq_advance (Conversation.mem_of_dialogue? hd).1 ht false).trans ih

/-! ### Where time sets off -/

/-- Where time has a background conversation set off, if it does. -/
def departure? (b : Background) (dt : Single) (s : Stage) : Option (Errand × Background × Stage) :=
  match b.phase with
  | .holding remaining =>
    if (remaining - dt).isSpent then
      some (.onward, { b with phase := .holding (remaining - dt) }, s)
    else none
  | _ => none

/-- Where a background conversation sets off as it starts, if it does. -/
def opening? (id : Nat) (name : String) (script : Conversation) (s : Stage) :
    Option (Background × Stage) :=
  match s.startingPoint script with
  | (none, _) => none
  | (some d, s) =>
    let b : Background := { id, name, script, dialogue := d }
    some (b.visit true (s.report (.backgroundStarted id name)) d)

theorem eq_of_departure {dt : Single} {e : Errand} {x : Background × Stage}
    (h : b.departure? dt s = some (e, x)) : ∃ remaining, b.phase = .holding remaining ∧
      (remaining - dt).isSpent = true ∧
      (e, x) = (.onward, { b with phase := .holding (remaining - dt) }, s) := by
  unfold departure? at h
  split at h
  case h_1 remaining hphase =>
    split at h
    case isTrue hspent => exact ⟨remaining, hphase, hspent, (Option.some.inj h).symm⟩
    case isFalse => cases h
  case h_2 => cases h

theorem tick_of_departure {dt : Single} {e : Errand} {x : Background × Stage}
    (h : b.departure? dt s = some (e, x)) : b.tick setting dt s = goOn setting x e := by
  obtain ⟨remaining, hphase, hspent, heq⟩ := eq_of_departure h
  cases heq
  simp only [tick, hphase, if_pos hspent]
  rfl

theorem script_of_departure {dt : Single} {e : Errand} {x : Background × Stage}
    (h : b.departure? dt s = some (e, x)) : x.1.script = b.script := by
  obtain ⟨_, -, -, heq⟩ := eq_of_departure h
  cases heq
  rfl

/-- Time that does not have a background conversation set off leaves it where it is. -/
theorem remains_of_departure {dt : Single} (h : b.departure? dt s = none) :
    (b.tick setting dt s).1.dialogue = b.dialogue ∧
      (b.tick setting dt s).1.sentenceIndex? = b.sentenceIndex? := by
  unfold departure? at h
  unfold tick
  split
  case h_1 => exact ⟨rfl, rfl⟩
  case h_2 remaining hphase =>
    simp only [hphase] at h
    split at h
    case isTrue => cases h
    case isFalse hspent =>
      rw [if_neg hspent]
      exact ⟨rfl, rfl⟩
  case h_3 r hphase =>
    have hrun := runsOn_run setting (b := b) (by simp [hphase]) (r.elapse dt) s
    generalize (r.elapse dt).run (handler setting b.script.actions) (b, s) = run at hrun ⊢
    obtain ⟨_ | _ | _, b', s'⟩ := run
    all_goals
      obtain ⟨rfl, -⟩ := hrun
      exact ⟨rfl, rfl⟩

theorem eq_of_opening {id : Nat} {name : String} {script : Conversation} {x : Background × Stage}
    (h : opening? id name script s = some x) : ∃ d s', s.startingPoint script = (some d, s') ∧
      x = visit true { id, name, script, dialogue := d }
        (s'.report (.backgroundStarted id name)) d := by
  unfold opening? at h
  split at h
  case h_1 => cases h
  case h_2 d s' hd => exact ⟨d, s', hd, (Option.some.inj h).symm⟩

theorem script_of_opening {id : Nat} {name : String} {script : Conversation}
    {x : Background × Stage} (h : opening? id name script s = some x) : x.1.script = script := by
  obtain ⟨d, s', -, rfl⟩ := eq_of_opening h
  exact script_visit ..

theorem start_of_opening {id : Nat} {name : String} {script : Conversation}
    {x r : Background × Stage} {n : Nat} (h : opening? id name script s = some x)
    (hr : (traveller setting).Goes .onward x n r) :
    Background.start setting id name script s = (.ok r.1, r.2) := by
  obtain ⟨d, s', hd, rfl⟩ := eq_of_opening h
  have hmem : d ∈ script.dialogues := Conversation.mem_of_startingPoint (congrArg Prod.fst hd)
  obtain ⟨t, ht, -⟩ := hr.arrives d (ambientOutlook_visit true _ _ d)
  rw [show (traveller setting).script _ = script from script_of_opening h] at ht
  have henter : enter setting true d { id, name, script, dialogue := d }
      (s'.report (.backgroundStarted id name)) = _ := enter_eq_advance hmem ht true
  have hgo : advance setting _ _ = r := goOn_of_goes hr
  simp only [start, hd]
  rw [henter, hgo]

end Background

/-! ## Calls -/

/-- **No call of a player follows more links than there are dialogues**, and where it ends, the
player does what it comes to. -/
theorem Player.call_of_performs {setting : Setting} {p : Player} {s : Stage} {c : PlayerCall}
    {n : Nat} {r : Player × Stage}
    (h : (traveller setting).Performs (p.call setting s c) (p.departure? setting s c) n r) :
    p.call setting s c = r ∧
      ((∀ q, p.playing = some q → q.dialogue ∈ q.script.dialogues) →
        ∀ e x, p.departure? setting s c = some (e, x) → n ≤ x.1.script.dialogues.length) := by
  generalize hdeparture : p.departure? setting s c = departure at h
  cases h with
  | remain => exact ⟨rfl, fun _ _ _ => nofun⟩
  | depart h =>
    have hoff := setsOff_of_departure hdeparture
    refine ⟨hoff.call_eq.trans (goOn_of_goes h), ?_⟩
    rintro hplace _ _ ⟨⟩
    exact h.links_le (hoff.dialogue hplace)
      fun id hid (hempty : Dialogue.Empty _) => hoff.choices id hid hempty.2

/-- **Going on ends unless it meets an empty circle.** Where it ends, performers do what it comes
to, and no more links are followed than there are dialogues. In scripts that passed the check each
call follows one link at most, and one that has no performer set off leaves it where it is. -/
theorem going_on_ends_iff :
    (∀ (setting : Setting) (x : Performance × Player × Stage) (e : Errand),
      ((∃ n r, (Player.traveller setting).Goes e x n r) ↔
        ¬ (Player.traveller setting).MeetsCircle e x) ∧
      ∀ n r, (Player.traveller setting).Goes e x n r → Player.goOn setting x e = r ∧
        (x.1.dialogue ∈ x.1.script.dialogues → (∀ id, e = .goTo id → x.1.dialogue.choices ≠ []) →
          n ≤ x.1.script.dialogues.length)) ∧
    (∀ (setting : Setting) (x : Background × Stage),
      ((∃ n r, (Background.traveller setting).Goes .onward x n r) ↔
        ¬ (Background.traveller setting).MeetsCircle .onward x) ∧
      ∀ n r, (Background.traveller setting).Goes .onward x n r → x.1.advance setting x.2 = r ∧
        (x.1.dialogue ∈ x.1.script.dialogues → n ≤ x.1.script.dialogues.length)) ∧
    (∀ (setting : Setting) (p : Player) (s : Stage) (c : PlayerCall),
      (∀ name script, c = .start name script → script.audit.result = .ok ()) →
      (∀ q, p.playing = some q → q.script.audit.result = .ok ()) →
      (∃ n r, (Player.traveller setting).Performs (p.call setting s c)
        (p.departure? setting s c) n r) ∧
      (∀ n r, (Player.traveller setting).Performs (p.call setting s c)
        (p.departure? setting s c) n r → p.call setting s c = r ∧ n ≤ 1) ∧
      (p.departure? setting s c = none → p.Remains (p.call setting s c).1)) ∧
    (∀ (setting : Setting) (b : Background) (s : Stage) (dt : Single),
      b.script.audit.result = .ok () →
      (∃ n r, (Background.traveller setting).Performs (b.tick setting dt s)
        (b.departure? dt s) n r) ∧
      (∀ n r, (Background.traveller setting).Performs (b.tick setting dt s)
        (b.departure? dt s) n r → b.tick setting dt s = r ∧ n ≤ 1) ∧
      (b.departure? dt s = none → (b.tick setting dt s).1.dialogue = b.dialogue ∧
        (b.tick setting dt s).1.sentenceIndex? = b.sentenceIndex?)) ∧
    ∀ (setting : Setting) (id : Nat) (name : String) (script : Conversation) (s : Stage),
      script.audit.result = .ok () → ∀ x, Background.opening? id name script s = some x →
      (∃ n r, (Background.traveller setting).Goes .onward x n r) ∧
      ∀ n r, (Background.traveller setting).Goes .onward x n r →
        Background.start setting id name script s = (.ok r.1, r.2) ∧ n ≤ 1 := by
  have hfull : ∀ {script : Conversation}, script.audit.result = .ok () →
      ∀ d ∈ script.dialogues, d.sentences ≠ [] :=
    fun h => (Conversation.sound_of_audit h).sentences
  refine ⟨fun setting x e => ⟨Traveller.exists_goes_iff, fun n r h => ⟨?_, fun hx he => ?_⟩⟩,
    fun setting x => ⟨Traveller.exists_goes_iff, fun n r h => ⟨?_, fun hx => ?_⟩⟩, ?_, ?_, ?_⟩
  · exact Player.goOn_of_goes h
  · exact h.links_le hx fun id hid (hempty : Dialogue.Empty _) => he id hid hempty.2
  · exact Background.goOn_of_goes h
  · exact h.links_le hx fun id hid => by cases hid
  · intro setting p s c hstart hplaying
    have hdialogues : ∀ e x, p.departure? setting s c = some (e, x) →
        ∀ d ∈ x.1.script.dialogues, ¬ d.Empty := by
      intro e x hx d hd hempty
      rcases (Player.setsOff_of_departure hx).script with ⟨name, rfl⟩ | ⟨q, hq, hscript⟩
      · exact hfull (hstart name _ rfl) d hd hempty.1
      · exact hfull (hscript ▸ hplaying q hq) d hd hempty.1
    exact ⟨Traveller.exists_performs hdialogues,
      fun n r h => ⟨(Player.call_of_performs h).1, h.links_le_one hdialogues⟩,
      Player.remains_of_departure⟩
  · intro setting b s dt haudit
    have hdialogues : ∀ e x, b.departure? dt s = some (e, x) →
        ∀ d ∈ x.1.script.dialogues, d.sentences ≠ [] := by
      intro e x hx
      rw [Background.script_of_departure hx]
      exact hfull haudit
    refine ⟨Traveller.exists_performs hdialogues, fun n r h => ⟨?_, h.links_le_one hdialogues⟩,
      Background.remains_of_departure⟩
    generalize hdeparture : b.departure? dt s = departure at h
    cases h with
    | remain => rfl
    | depart h => exact (Background.tick_of_departure hdeparture).trans (Background.goOn_of_goes h)
  · intro setting id name script s haudit x hx
    have hdialogues : ∀ d ∈ x.1.script.dialogues, d.sentences ≠ [] := by
      rw [Background.script_of_opening hx]
      exact hfull haudit
    exact ⟨Traveller.exists_goes (Traveller.not_meetsCircle hdialogues), fun n r h =>
      ⟨Background.start_of_opening hx h, h.links_le_one hdialogues⟩⟩

/-- A dialogue that leads round to itself by two empty ones. -/
def Conversation.ring (sentences : List String) : Conversation where
  dialogues := [{ id := 0, nextId := 1, sentences, startingPoint := true },
    { id := 1, nextId := 2 }, { id := 2, nextId := 0 }]

/-- Once round, a player and a background conversation are back at the sentence that was said, by as
many links as there are dialogues. A script that passed the check is gone through as it should. -/
theorem going_on_round :
    let setting : Setting := ⟨{}, default, fun _ => false⟩
    let s : Stage := .ofVariables .empty
    let script : Conversation := .ring ["Hm."]
    let d : Dialogue := { id := 0, nextId := 1, sentences := ["Hm."], startingPoint := true }
    let q : Performance := { name := "ring", script, dialogue := d, sentenceIndex? := some 0 }
    let p : Player := ⟨none, some q⟩
    let b : Background := { id := 3, name := "ring", script, dialogue := d
                            sentenceIndex? := some 0, phase := .holding 0 }
    (d ∈ script.dialogues ∧ ¬ (Player.traveller setting).MeetsCircle .onward (q, p, s) ∧
      p.advance setting q s = p.stay setting (q.move d) s ∧ 3 ≤ script.dialogues.length) ∧
    (¬ (Background.traveller setting).MeetsCircle .onward (b, s) ∧ 3 ≤ script.dialogues.length) ∧
    ((Conversation.forked false).audit.result = .ok () ∧
      ∃ n r, (Player.traveller setting).Performs
        (Player.idle.call setting s (.start "fork" (.forked false)))
        (Player.idle.departure? setting s (.start "fork" (.forked false))) n r ∧ n ≤ 1) ∧
    ((Conversation.forked true).audit.result = .ok () ∧
      (∃ n r, (Background.traveller setting).Performs
        (({ b with script := .forked true } : Background).tick setting 1 s)
        (({ b with script := .forked true } : Background).departure? 1 s) n r ∧ n ≤ 1) ∧
      ∃ x n r, Background.opening? 3 "fork" (.forked true) s = some x ∧
        (Background.traveller setting).Goes .onward x n r ∧ n ≤ 1) := by
  intro setting s script d q p b
  obtain ⟨hmain, hambient, hcall, htick, hstart⟩ := going_on_ends_iff
  have hmem : d ∈ script.dialogues := by decide
  have hq : (Player.traveller setting).Goes .onward (q, p, s) 3 _ :=
    .link rfl (.enter rfl (.link rfl (.enter rfl (.link rfl (.enter rfl (.rest nofun))))))
  have hb : (Background.traveller setting).Goes .onward (b, s) 3 _ :=
    .link rfl (.enter rfl (.link rfl (.enter rfl (.link rfl (.enter rfl (.rest nofun))))))
  refine ⟨⟨hmem, (hmain setting (q, p, s) .onward).1.1 ⟨_, _, hq⟩, ?_, ?_⟩, ⟨?_, ?_⟩,
    ⟨Conversation.audit_forked false, ?_⟩, Conversation.audit_forked true, ?_, ?_⟩
  · exact ((hmain setting (q, p, s) .onward).2 3 _ hq).1
  · exact ((hmain setting (q, p, s) .onward).2 3 _ hq).2 hmem nofun
  · exact (hambient setting (b, s)).1.1 ⟨_, _, hb⟩
  · exact ((hambient setting (b, s)).2 3 _ hb).2 hmem
  · have hcheck : ∀ name script, PlayerCall.start "fork" (.forked false) = .start name script →
        script.audit.result = .ok () := by
      rintro _ _ ⟨⟩
      exact Conversation.audit_forked false
    have hidle : ∀ q, Player.idle.playing = some q → q.script.audit.result = .ok () := by
      intro q h
      cases h
    obtain ⟨⟨n, r, h⟩, hle, -⟩ := hcall setting .idle s _ hcheck hidle
    exact ⟨n, r, h, (hle n r h).2⟩
  · obtain ⟨⟨n, r, h⟩, hle, -⟩ :=
      htick setting { b with script := .forked true } s 1 (Conversation.audit_forked true)
    exact ⟨n, r, h, (hle n r h).2⟩
  · have hopens : (Background.opening? 3 "fork" (.forked true) s).isSome = true := by
      decide +kernel
    obtain ⟨x, hx⟩ := Option.isSome_iff_exists.1 hopens
    obtain ⟨⟨n, r, h⟩, hle⟩ := hstart setting 3 "fork" _ s (Conversation.audit_forked true) x hx
    exact ⟨x, n, r, hx, h, (hle n r h).2⟩

end Colloquy
