import Colloquy.Proofs.Playback.Coherence
import Colloquy.Proofs.Playback.Farewell
import Colloquy.Proofs.Script.Reach

/-!
# Proofs/Playback/Whereabouts — performers are where their script leads

Wherever a performer is, moves of its script have led there from a starting point: moves by the
choices of a dialogue or else by its link, and by links alone in the background. This is so for any
script and whatever a performer is asked for (`Player.led_meetAll`, `Background.led_meetAll`); each
way on is a move, and a trail is some moves (`Conversation.Reached.of_trailWithin?`).

So nothing that is performed is said to be unreachable, if the script has passed the check.
-/

namespace Colloquy

open Markup

/-! ## Moves -/

namespace Dialogue

variable {d : Dialogue} {said : Nat} {id : Int32}

theorem mem_ways_of_outlook (h : d.outlook said = .link id) : id ∈ d.ways false := by
  obtain ⟨-, hc, hn⟩ := outlook_eq_link h
  rw [ways, if_pos (.inr hc), hn]
  exact List.mem_singleton_self id

theorem mem_ways_of_ambientOutlook (h : d.ambientOutlook said = .link id) : id ∈ d.ways true := by
  have hn : d.next? = some id := (outlook_eq_link h).2.2
  rw [ways, if_pos (.inl rfl), hn]
  exact List.mem_singleton_self id

theorem mem_ways_of_choice {c : Choice} (hc : c ∈ d.choices) (hn : c.next? = some id) :
    id ∈ d.ways false := by
  have hne : ¬ (false = true ∨ d.choices = []) := by
    rintro (h | h)
    · cases h
    · rw [h] at hc
      cases hc
  rw [ways, if_neg hne]
  exact List.mem_filterMap.2 ⟨c, hc, hn⟩

end Dialogue

namespace Conversation

/-- A dialogue is found to start with only if it is marked for that. -/
theorem startingPoint_of_bestStart {vars : Variables} {d : Dialogue} :
    ∀ {ds : List Dialogue} {best : Option Dialogue},
      (bestStart vars best ds).value = some d → best = some d ∨ d.startingPoint = true
  | [], best, h => .inl h
  | e :: ds, best, h => by
      rw [bestStart] at h
      split at h
      case isTrue hstart =>
        refine (startingPoint_of_bestStart h).elim (fun hbest => ?_) .inr
        split at hbest
        · cases hbest
          exact .inr (Bool.and_eq_true_iff.1 hstart).1
        · exact .inl hbest
      case isFalse => exact startingPoint_of_bestStart h

variable {c : Conversation} {moves : Dialogue → List Int32} {d : Dialogue}

/-- The dialogue that a script starts with is reached by any moves. -/
theorem Reached.of_startingPoint {vars : Variables} (h : (c.startingPoint vars).value = some d) :
    c.Reached moves d :=
  .start (mem_of_startingPoint h) ((startingPoint_of_bestStart h).resolve_left (by simp))

/-- **A trail is some moves**: what is passed on it is reached, and so is where it ends. -/
theorem Reached.of_trailWithin? {outlook : Dialogue → Outlook}
    (hmoves : ∀ d id, outlook d = .link id → id ∈ moves d) {links : Nat} {passed : List Dialogue}
    {landing : Landing} (hd : c.Reached moves d)
    (h : c.trailWithin? outlook links d = some ⟨passed, landing⟩) :
    (∀ e ∈ passed, c.Reached moves e) ∧ ∀ e, landing = .at e → c.Reached moves e :=
  forall_of_trailWithin? (fun hd ho he => .move hd (hmoves _ _ ho) he) hd h

/-! ## Making ready -/

/-- Making ready leaves the links alone, and so what is said to be unreachable. -/
theorem unreachable_prepare (c : Conversation) : c.prepare.value.unreachable = c.unreachable := by
  have hlinks : c.prepare.value.linksOf = c.linksOf := by
    funext id
    rw [linksOf, linksOf, dialogue?_prepare]
    cases c.dialogue? id <;> rfl
  have hstart : c.prepare.value.startingIds = c.startingIds := by
    simp only [startingIds, prepare, List.filter_map, List.map_map]
    rfl
  rw [unreachable, unreachable, hlinks, hstart, ids_prepare]

end Conversation

/-! ## The main performance -/

namespace Reveal

/-- Whatever ends a run has been done by a tag. -/
theorem of_broken {σ : Type} {h : Handler σ} {P : σ → Prop}
    (htag : ∀ c k s, (h.onTag c k s).1 = none → P (h.onTag c k s).2) (bs : List Beat) :
    ∀ {n : Nat} {k : Clock} {s : σ}, (runBeats h bs n k s).1 = .broken →
      P (runBeats h bs n k s).2 := by
  induction bs with
  | nil =>
    intro n k s hbroken
    unfold runBeats at hbroken
    split at hbroken <;> cases hbroken
  | cons beat bs ih =>
    intro n k s hbroken
    cases beat with
    | character c =>
      unfold runBeats at hbroken ⊢
      split at hbroken
      · cases hbroken
      · rename_i hk
        rw [if_neg hk]
        exact ih hbroken
    | tag c =>
      have hdone := htag c k s
      unfold runBeats at hbroken ⊢
      split at hbroken
      · cases hbroken
      · rename_i hk
        rw [if_neg hk]
        generalize h.onTag c k s = done at hbroken hdone ⊢
        obtain ⟨_ | k', s'⟩ := done
        · exact hdone rfl
        · exact ih hbroken

end Reveal

namespace Player

variable {setting : Setting} {q : Performance} {p : Player}

/-- The dialogue that a performance is in is reached in its script. -/
def Led (p : Player) : Prop :=
  ∀ q, p.playing = some q → q.script.Reached (Dialogue.ways false) q.dialogue

theorem led_of_idle (h : p.playing = none) : p.Led := by
  intro q hq
  rw [h] at hq
  cases hq

theorem led_stop (p : Player) (s : Stage) : (p.stop s).1.Led := by
  refine led_of_idle ?_
  cases h : p.playing with
  | none => rw [stop_of_idle h, h]
  | some q => rw [stop_of_playing h]

theorem led_stay (hq : q.script.Reached (Dialogue.ways false) q.dialogue) (p : Player)
    (s : Stage) : (p.stay setting q s).1.Led := by
  unfold stay
  split
  · intro q' hq'
    rw [playing_say] at hq'
    cases hq'
    exact hq
  · intro q' hq'
    cases hq'
    exact hq
  all_goals exact led_stop _ _

theorem led_enter {d : Dialogue} (hd : q.script.Reached (Dialogue.ways false) d) (p : Player)
    (s : Stage) : (p.enter setting q d s).1.Led := by
  unfold enter
  split
  case h_1 passed e ht =>
    exact led_stay (q := q.move e)
      ((Conversation.Reached.of_trailWithin? (fun _ _ => Dialogue.mem_ways_of_outlook) hd ht).2 e
        rfl) p s
  all_goals exact led_stop _ _

/-- Going to where a dialogue leads is a move. -/
theorem led_goTo (hq : q.script.Reached (Dialogue.ways false) q.dialogue) {id : Int32}
    (hid : id ∈ q.dialogue.ways false) (p : Player) (s : Stage) :
    (p.goTo setting q id s).player.Led := by
  unfold goTo
  split
  · exact led_enter (.move hq hid ‹_›) p s
  · exact led_stop _ _

theorem led_advance (hq : q.script.Reached (Dialogue.ways false) q.dialogue) (p : Player)
    (s : Stage) : (p.advance setting q s).1.Led := by
  unfold advance
  split
  · exact led_goTo hq (Dialogue.mem_ways_of_outlook ‹_›) p s
  · exact led_stay hq p s

theorem led_choose (hq : q.script.Reached (Dialogue.ways false) q.dialogue) {c : Choice}
    (hc : c ∈ q.dialogue.choices) (p : Player) (s : Stage) :
    (p.choose setting q c s).player.Led := by
  unfold choose
  dsimp only
  split
  case h_1 id _ hn => exact led_goTo hq (Dialogue.mem_ways_of_choice hc hn) _ _
  case h_2 => exact led_stop _ _

theorem led_start (hp : p.Led) (name : String) (script : Conversation) (s : Stage) :
    (p.start setting name script s).player.Led := by
  unfold start
  split
  · exact hp
  · cases hd : (script.startingPoint s.vars).value with
    | none =>
      rw [show s.startingPoint script = (none, (s.startingPoint script).2) by rw [← hd]; rfl]
      exact hp
    | some d =>
      rw [show s.startingPoint script = (some d, (s.startingPoint script).2) by rw [← hd]; rfl]
      exact led_enter (q := { name, script, dialogue := d }) (.of_startingPoint hd) _ _

theorem led_next (hp : p.Led) (s : Stage) : (p.next setting s).player.Led := by
  unfold next
  split
  · exact hp
  · split
    · exact hp
    · exact hp
    · exact led_advance (hp _ ‹_›) p s

theorem led_select (hp : p.Led) (index : Nat) (s : Stage) :
    (p.select setting index s).player.Led := by
  unfold select
  split
  · exact hp
  · split
    · split
      · exact led_choose (hp _ ‹_›) (List.mem_of_getElem? ‹_›) p s
      · exact hp
    · exact hp

/-- A tag that ends a reveal has ended the conversation. -/
theorem playing_of_broken (setting : Setting) (declared : List Action) (r : Reveal)
    (x : Player × Stage) : (r.run (handler setting declared) x).1 = .broken →
      (r.run (handler setting declared) x).2.1.playing = none := by
  intro h
  refine Reveal.of_broken (P := fun y => y.1.playing = none) (fun c k y hy => ?_) r.pending h
  unfold handler at hy ⊢
  dsimp only at hy ⊢
  split at hy
  · cases hy
  · exact Option.not_isSome_iff_eq_none.1 ‹_›

theorem led_tick (hp : p.Led) (dt : Single) (s : Stage) : (p.tick setting dt s).1.Led := by
  unfold tick
  cases hq : p.playing with
  | none => exact hp
  | some q =>
    have hreached := hp q hq
    cases hr : q.reveal? with
    | none =>
      simp only [Option.bind_some, hr, Option.map_none]
      exact hp
    | some r =>
      simp only [Option.bind_some, hr, Option.map_some]
      have hbroken := playing_of_broken setting q.script.actions (r.elapse dt) (p, s)
      generalize (r.elapse dt).run (handler setting q.script.actions) (p, s) = run at hbroken ⊢
      obtain ⟨_ | _ | _, p', s'⟩ := run
      · intro q' hq'
        cases hq'
        exact hreached
      · dsimp only
        split
        · exact led_advance hreached _ _
        · intro q' hq'
          cases hq'
          exact hreached
      · exact led_of_idle (hbroken rfl)

/-- **Each call leaves a player where its script leads.** -/
theorem led_call (hp : p.Led) (s : Stage) (c : PlayerCall) : (p.call setting s c).1.Led := by
  cases c with
  | start name script => exact led_start hp name script s
  | next => exact led_next hp s
  | select index => exact led_select hp index s
  | stop => exact led_stop p s
  | theme name => exact hp
  | tick dt => exact led_tick hp dt s

theorem led_meetAll (os : List Occasion) : (meetAll os).1.Led := by
  have hfold : ∀ x : Player × Trace, x.1.Led → (os.foldl meet x).1.Led := by
    induction os with
    | nil => exact fun x hx => hx
    | cons o os ih =>
      exact fun x hx => ih _ (led_call hx ⟨o.vars, o.requests, o.events, x.2⟩ o.call)
  exact hfold (.idle, []) (led_of_idle rfl)

end Player

/-! ## In the background -/

namespace Background

variable {setting : Setting} {b : Background}

/-- The dialogue that a background conversation is in is reached in its script. -/
structure Led (b : Background) (c : Conversation) : Prop where
  script : b.script = c
  reached : c.Reached (Dialogue.ways true) b.dialogue

variable {script : Conversation}

theorem led_finish (h : b.Led script) (s : Stage) : (b.finish s).1.Led script := by
  unfold finish
  split
  · exact h
  · exact ⟨h.script, h.reached⟩

theorem led_stay (h : b.Led script) (s : Stage) : (b.stay setting s).1.Led script := by
  unfold stay
  split
  · exact ⟨h.script, h.reached⟩
  · exact led_finish h s

theorem led_visit (h : b.Led script) {d : Dialogue} (hd : script.Reached (Dialogue.ways true) d)
    (first : Bool) (s : Stage) : (b.visit first s d).1.Led script := by
  obtain ⟨anchor, moved, hv⟩ := b.visit_fst first s d
  rw [hv]
  exact ⟨h.script, hd⟩

theorem led_visitAll (ds : List Dialogue) (hds : ∀ d ∈ ds, script.Reached (Dialogue.ways true) d) :
    ∀ (first : Bool) (b : Background) (s : Stage), b.Led script →
      (b.visitAll first s ds).1.Led script := by
  induction ds with
  | nil => exact fun _ _ _ h => h
  | cons d ds ih =>
    intro first b s h
    obtain ⟨hd, hrest⟩ := List.forall_mem_cons.1 hds
    exact ih hrest false _ _ (led_visit h hd first s)

theorem led_enter (h : b.Led script) {d : Dialogue} (hd : script.Reached (Dialogue.ways true) d)
    (first : Bool) (s : Stage) : (b.enter setting first d s).1.Led script := by
  have hmoves : ∀ (e : Dialogue) (id : Int32), e.ambientOutlook 0 = .link id →
      id ∈ e.ways true := fun _ _ =>
    Dialogue.mem_ways_of_ambientOutlook
  unfold enter
  rw [h.script]
  split
  case h_1 passed e ht =>
    obtain ⟨hpassed, hlanding⟩ := Conversation.Reached.of_trailWithin? hmoves hd ht
    refine led_stay (led_visitAll _ (List.forall_mem_append.2 ⟨hpassed, ?_⟩) first b s h) _
    exact List.forall_mem_singleton.2 (hlanding e rfl)
  case h_2 passed id ht =>
    obtain ⟨hpassed, -⟩ := Conversation.Reached.of_trailWithin? hmoves hd ht
    exact led_finish (led_visitAll _ hpassed first b s h) _
  case h_3 => exact led_finish h _

theorem led_advance (h : b.Led script) (s : Stage) : (b.advance setting s).1.Led script := by
  unfold advance
  rw [h.script]
  split
  · split
    · exact led_enter h (.move h.reached (Dialogue.mem_ways_of_ambientOutlook ‹_›) ‹_›) false s
    · exact led_finish h _
  · exact led_stay h s

theorem led_tick (h : b.Led script) (dt : Single) (s : Stage) :
    (b.tick setting dt s).1.Led script := by
  unfold tick
  split
  case h_1 => exact h
  case h_2 x hp =>
    dsimp only
    split
    · exact led_advance (b := { b with phase := .holding (x - dt) }) ⟨h.script, h.reached⟩ s
    · exact ⟨h.script, h.reached⟩
  case h_3 r hp =>
    have hrun := runsOn_run setting (b := b) (by simp [hp]) (r.elapse dt) s
    generalize (r.elapse dt).run (handler setting b.script.actions) (b, s) = run at hrun ⊢
    obtain ⟨_ | _ | _, b', s'⟩ := run
    all_goals
      obtain ⟨rfl, -⟩ := hrun
      exact ⟨h.script, h.reached⟩

theorem led_call (h : b.Led script) (s : Stage) (c : BackgroundCall) :
    (b.call setting s c).1.Led script := by
  cases c with
  | tick dt => exact led_tick h dt s
  | finish => exact led_finish h s

theorem led_meetAll (os : List BackgroundOccasion) :
    ∀ x : Background × Stage, x.1.Led script → (meetAll x os).1.Led script := by
  induction os with
  | nil => exact fun _ h => h
  | cons o os ih => exact fun x h => ih (meet x o) (led_call h _ o.call)

theorem led_start {id : Nat} {name : String} {s s' : Stage}
    (h : Background.start setting id name script s = (.ok b, s')) : b.Led script := by
  obtain ⟨d, hd, henter⟩ := exists_of_start h
  have hled : Led { id, name, script, dialogue := d } script := ⟨rfl, .of_startingPoint hd⟩
  have hentered : (enter setting true d { id, name, script, dialogue := d }
      ((s.startingPoint script).2.report (.backgroundStarted id name))).1.Led script :=
    led_enter hled (.of_startingPoint hd) true _
  rwa [henter] at hentered

end Background

/-! ## What is said to be unreachable -/

namespace Conversation

/-- **Nothing that is performed is said to be unreachable.** A script that has passed the check is
performed as it is or made ready, by a player or in the background, whatever is asked for and
whatever happens in the meantime; a performer is never in a dialogue that is said to be unreachable.
And it is in each dialogue that it enters: none is passed. -/
theorem not_mem_unreachable_of_performed {c script : Conversation} (hc : c.audit.result = .ok ())
    (hscript : script = c ∨ script = c.prepare.value) :
    (∀ (os : List Occasion) (q : Performance), (Player.meetAll os).1.playing = some q →
      q.script = script → q.dialogue.id ∉ c.unreachable) ∧
    (∀ (setting : Setting) (id : Nat) (name : String) (s s' : Stage) (b : Background),
      Background.start setting id name script s = (.ok b, s') → ∀ os : List BackgroundOccasion,
        (Background.meetAll (b, s') os).1.dialogue.id ∉ c.unreachable) ∧
    ∀ (setting : Setting) (s : Stage), ∀ d ∈ script.dialogues,
      (∀ (p : Player) (q : Performance), q.script = script →
        (p.enter setting q d s).1.playing.map (·.dialogue) = some d) ∧
      ∀ (b : Background) (first : Bool), b.script = script →
        (b.enter setting first d s).1.dialogue = d := by
  have hchecked : script.audit.result = .ok () ∧ script.unreachable = c.unreachable := by
    obtain rfl | rfl := hscript
    · exact ⟨hc, rfl⟩
    · exact ⟨c.audit_prepare ▸ hc, c.unreachable_prepare⟩
  obtain ⟨hchecked, hsame⟩ := hchecked
  rw [← hsame]
  refine ⟨fun os q hq hperformed => ?_, fun setting id name s s' b hb os => ?_,
    fun setting s d hd => ⟨fun p q hperformed => ?_, fun b first hperformed => ?_⟩⟩
  · have hreached := Player.led_meetAll os q hq
    rw [hperformed] at hreached
    exact hreached.not_mem_unreachable hchecked
  · exact (Background.led_meetAll os (b, s') (Background.led_start hb)).reached.not_mem_unreachable
      hchecked
  · subst hperformed
    obtain ⟨raw, -, henter⟩ := Lead.enter_eq setting (sound_of_audit hchecked) hd p s
    rw [henter, Player.playing_say]
    rfl
  · subst hperformed
    obtain ⟨raw, -, henter⟩ :=
      Background.enter_eq setting first (sound_of_audit hchecked) hd s
    obtain ⟨anchor, moved, hv⟩ := b.visit_fst first s d
    rw [henter, hv]
    rfl

/-- The choice leads a player to one dialogue, and the link leads on to the other in the
background. -/
theorem not_mem_unreachable_of_forked_performed :
    let setting : Setting := ⟨{}, default, fun _ => false⟩
    let calls : List PlayerCall := [.start "fork" (forked false), .tick 1, .next, .select 0]
    let os : List Occasion := calls.map fun call => ⟨call, setting, .empty, [], []⟩
    let ticks : List BackgroundOccasion := .replicate 9 ⟨.tick 1, setting, .empty, []⟩
    (∃ q, (Player.meetAll os).1.playing = some q ∧ q.script = forked false ∧
      q.dialogue.id = 2 ∧ q.dialogue.id ∉ (forked false).unreachable) ∧
    ∃ b s', Background.start setting 3 "fork" (forked true).prepare.value (.ofVariables .empty) =
        (.ok b, s') ∧
      (Background.meetAll (b, s') ticks).1.dialogue.id = 1 ∧
      (Background.meetAll (b, s') ticks).1.dialogue.id ∉ (forked true).unreachable := by
  intro setting calls os ticks
  have hplaying : (Player.meetAll os).1.playing.map (fun q => (q.script, q.dialogue.id)) =
      some (forked false, 2) := by decide +kernel
  obtain ⟨q, hq, hplace⟩ := Option.map_eq_some_iff.1 hplaying
  obtain ⟨hscript, hid⟩ := Prod.mk.inj hplace
  have hd : ((forked true).prepare.value.startingPoint .empty).value = some _ := rfl
  have hstart := Background.start_of_startingPoint setting 3 "fork" (s := .ofVariables .empty) hd
  refine ⟨⟨q, hq, hscript, hid, ?_⟩, _, _, hstart, by decide +kernel, ?_⟩
  · exact (not_mem_unreachable_of_performed (audit_forked false) (.inl rfl)).1 os q hq hscript
  · exact (not_mem_unreachable_of_performed (audit_forked true) (.inr rfl)).2.1 setting 3 "fork" _ _
      _ hstart ticks

end Conversation

end Colloquy
