import Colloquy.Proofs.Playback.Solo

/-!
# Proofs/Playback/Farewell — a background conversation reports its start and its end

That a background conversation starts is reported once. That it ends is reported once, and its text
box is closed as often, whatever its script is like and whatever it is called for
(`Background.reports_meetAll`). It ends in one call, and is left alone from then on; so it takes one
lemma for each part of a call (`Background.Reports`).

One that has nothing to say at all ends before it has begun: it counts as over until it says its
first sentence, and what is over has no end to report.
-/

namespace Colloquy

open Markup

namespace Background

variable {setting : Setting} {b : Background}

/-! ## Reports of the end -/

/-- The report that is due where a conversation is over that was not. -/
def farewell (b b' : Background) : List Event :=
  if b'.isFinished && !b.isFinished then [.backgroundFinished b.id] else []

theorem farewell_eq_nil {b' : Background} (h : b'.isFinished = true → b.isFinished = true) :
    b.farewell b' = [] := by
  unfold farewell
  cases hb : b.isFinished <;> cases hb' : b'.isFinished <;> simp_all

theorem farewell_of_end {b' : Background} (hb : b.phase ≠ .finished)
    (hb' : b'.isFinished = true) : b.farewell b' = [.backgroundFinished b.id] := by
  rw [farewell, hb', isFinished_eq_false hb]
  rfl

/-- From here on, the end has been reported if there was one, and the text box closed as often. -/
structure Reports (b : Background) (s : Stage) (x : Background × Stage) : Prop where
  id : x.1.id = b.id
  puts : ∃ seen, s.Puts x.2 seen (b.farewell x.1) ∧
    seen.count (.close b.channel) = (b.farewell x.1).length

/-- Where a conversation is not over in the end, or was before, there is no end to report. -/
theorem Reports.of_open {s : Stage} {x : Background × Stage} {seen : Trace} (hid : x.1.id = b.id)
    (hfinished : x.1.isFinished = true → b.isFinished = true) (h : s.Puts x.2 seen [])
    (hclose : .close b.channel ∉ seen) : Reports b s x := by
  have hnone := farewell_eq_nil hfinished
  exact ⟨hid, seen, hnone ▸ h, by rw [hnone, List.count_eq_zero.2 hclose, List.length_nil]⟩

theorem Reports.of_end {s : Stage} {x : Background × Stage} {seen : Trace}
    (hb : b.phase ≠ .finished) (hid : x.1.id = b.id) (hfinished : x.1.isFinished = true)
    (h : s.Puts x.2 (seen ++ [.close b.channel]) [.backgroundFinished b.id])
    (hclose : .close b.channel ∉ seen) : Reports b s x := by
  have hend := farewell_of_end hb hfinished
  refine ⟨hid, _, hend ▸ h, ?_⟩
  rw [hend, List.count_append, List.count_eq_zero.2 hclose, List.count_singleton_self]
  rfl

/-- What comes before may be seen, as long as it is no end. -/
theorem Reports.after {s : Stage} {x y : Background × Stage} {seen : Trace}
    (k : Reports x.1 x.2 y) (hid : x.1.id = b.id) (hfinished : x.1.isFinished = b.isFinished)
    (h : s.Puts x.2 seen []) (hclose : .close b.channel ∉ seen) : Reports b s y := by
  obtain ⟨hyid, seen', hputs, hcount⟩ := k
  have hfarewell : x.1.farewell y.1 = b.farewell y.1 := by rw [farewell, farewell, hfinished, hid]
  have hchannel : x.1.channel = b.channel := by rw [channel, channel, hid]
  rw [hfarewell] at hputs hcount
  refine ⟨hyid.trans hid, seen ++ seen', h.trans hputs, ?_⟩
  rw [List.count_append, List.count_eq_zero.2 hclose, ← hchannel, hcount, Nat.zero_add]

/-- A conversation that is over stays so. -/
theorem Reports.trans {s : Stage} {x y : Background × Stage} (h : Reports b s x)
    (k : Reports x.1 x.2 y) (hx : b.isFinished = true → x.1.isFinished = true)
    (hy : x.1.isFinished = true → y.1.isFinished = true) : Reports b s y := by
  obtain ⟨hxid, seen, hputs, hcount⟩ := h
  obtain ⟨hyid, seen', hputs', hcount'⟩ := k
  have hfarewell : b.farewell y.1 = b.farewell x.1 ++ x.1.farewell y.1 := by
    unfold farewell
    rw [hxid]
    cases hb : b.isFinished <;> cases hbx : x.1.isFinished <;> simp_all
  have hchannel : x.1.channel = b.channel := by rw [channel, channel, hxid]
  refine ⟨hyid.trans hxid, seen ++ seen', hfarewell ▸ hputs.trans hputs', ?_⟩
  rw [List.count_append, hcount, ← hchannel, hcount', hfarewell, List.length_append]

theorem reports_finish (b : Background) (s : Stage) : Reports b s (b.finish s) := by
  by_cases hb : b.phase = .finished
  · rw [show b.finish s = (b, s) from if_pos (by rw [isFinished, hb]; rfl)]
    exact .of_open rfl (fun h => h) (.refl s) List.not_mem_nil
  · have hputs : s.Puts (b.finish s).2 ([] ++ [.close b.channel]) [.backgroundFinished b.id] :=
      puts_finish hb s
    refine .of_end hb ?_ ?_ hputs List.not_mem_nil
    · rw [finish_of_active hb]
    · rw [finish_of_active hb]
      rfl

theorem reports_fail (note : Note) (b : Background) (s : Stage) : Reports b s (b.fail note s) :=
  (b.reports_finish _).after (x := (b, _)) rfl rfl (s.puts_annotate _) List.not_mem_nil

theorem reports_stay (b : Background) (s : Stage) : Reports b s (b.stay setting s) := by
  unfold stay
  split
  · exact .of_open rfl (fun h => by cases h) (b.puts_say setting _ s) (by simp)
  · exact b.reports_finish s

/-- Moves are no end. -/
theorem visitAll_open (ds : List Dialogue) :
    ∀ (first : Bool) (b : Background) (s : Stage),
      (b.visitAll first s ds).1.id = b.id ∧
        (b.visitAll first s ds).1.isFinished = b.isFinished ∧
          ∃ seen, s.Puts (b.visitAll first s ds).2 seen [] ∧ .close b.channel ∉ seen := by
  induction ds with
  | nil => exact fun _ b s => ⟨rfl, rfl, [], .refl s, List.not_mem_nil⟩
  | cons d ds ih =>
    intro first b s
    obtain ⟨hid, hfinished, seen, hputs, hclose⟩ :=
      ih false (b.visit first s d).1 (b.visit first s d).2
    obtain ⟨anchor, moved, hv⟩ := b.visit_fst first s d
    have hvisit : (b.visit first s d).1.id = b.id ∧
        (b.visit first s d).1.isFinished = b.isFinished := by
      rw [hv]
      exact ⟨rfl, rfl⟩
    refine ⟨hid.trans hvisit.1, hfinished.trans hvisit.2, _,
      (b.puts_visit first s d).trans hputs, ?_⟩
    rw [channel, hvisit.1] at hclose
    rw [List.mem_append, not_or]
    exact ⟨by simp, hclose⟩

theorem reports_enter (setting : Setting) (first : Bool) (d : Dialogue) (b : Background)
    (s : Stage) : Reports b s (b.enter setting first d s) := by
  unfold enter
  split
  · obtain ⟨hid, hfinished, seen, hputs, hclose⟩ := visitAll_open (_ ++ [_]) first b s
    exact (reports_stay _ _).after hid hfinished hputs hclose
  · obtain ⟨hid, hfinished, seen, hputs, hclose⟩ := visitAll_open _ first b s
    exact (reports_fail _ _ _).after hid hfinished hputs hclose
  · exact b.reports_fail _ s

theorem reports_advance (b : Background) (s : Stage) : Reports b s (b.advance setting s) := by
  unfold advance
  split
  · split
    · exact reports_enter _ _ _ b s
    · exact b.reports_fail _ s
  · exact b.reports_stay s

theorem reports_tick (dt : Single) (b : Background) (s : Stage) :
    Reports b s (b.tick setting dt s) := by
  unfold tick
  split
  case h_1 => exact .of_open rfl (fun h => h) (.refl s) List.not_mem_nil
  case h_2 x hp =>
    have hactive := isFinished_eq_false (b := b) (by simp [hp])
    dsimp only
    split
    · exact (reports_advance _ s).after (x := ({ b with phase := .holding (x - dt) }, s)) rfl
        hactive.symm (.refl s) List.not_mem_nil
    · exact .of_open rfl (fun h => by cases h) (.refl s) List.not_mem_nil
  case h_3 r hp =>
    have hactive : b.phase ≠ .finished := by simp [hp]
    have hrun := runsOn_run setting hactive (r.elapse dt) s
    generalize (r.elapse dt).run (handler setting b.script.actions) (b, s) = run at hrun ⊢
    obtain ⟨_ | _ | _, b', s'⟩ := run
    · obtain ⟨rfl, taken, -, -, -, hputs⟩ := hrun
      exact .of_open rfl (fun h => by cases h) hputs (by simp)
    · obtain ⟨rfl, hputs⟩ := hrun
      exact .of_open rfl (fun h => by cases h) (hputs.trans (Stage.puts_seen _ rfl)) (by simp)
    · obtain ⟨rfl, taken, c, rest, -, -, hputs⟩ := hrun
      exact .of_end hactive rfl rfl hputs (by simp)

/-! ## Calls -/

theorem reports_call (b : Background) (s : Stage) (c : BackgroundCall) :
    Reports b s (b.call setting s c) := by
  cases c with
  | tick dt => exact b.reports_tick dt s
  | finish => exact b.reports_finish s

/-- What comes of each call comes of all of them. -/
theorem Reports.meetAll (os : List BackgroundOccasion) :
    ∀ x : Background × Stage, Reports x.1 x.2 (meetAll x os) := by
  induction os with
  | nil => exact fun x => .of_open rfl (fun h => h) (.refl _) List.not_mem_nil
  | cons o os ih =>
    intro x
    have hcall : Reports x.1 x.2 (meet x o) := by
      refine Reports.after (x := (x.1, { x.2 with vars := o.vars, requests := o.requests }))
        (x.1.reports_call _ o.call) rfl rfl ?_ List.not_mem_nil
      exact Stage.puts_of_eq rfl rfl
    refine hcall.trans (ih (meet x o)) (fun h => ?_) (isFinished_meetAll os _)
    rw [meet, call_of_finished h]
    exact h

end Background

/-! ## What is over as it starts -/

/-- From a dialogue on there is a sentence to show in the background, if only after dialogues that
are passed. -/
def Conversation.HasWord (c : Conversation) (d : Dialogue) : Prop :=
  ∃ passed e, c.trail? (·.ambientOutlook 0) d = some ⟨passed, .at e⟩ ∧ e.sentences ≠ []

namespace Background

/-- After moves, a conversation is at the start of the dialogue that was entered last. -/
theorem visitAll_at (e : Dialogue) (ds : List Dialogue) :
    ∀ (first : Bool) (b : Background) (s : Stage),
      (b.visitAll first s (ds ++ [e])).1.dialogue = e ∧
        (b.visitAll first s (ds ++ [e])).1.said = 0 := by
  induction ds with
  | nil =>
    intro first b s
    obtain ⟨anchor, moved, hv⟩ := b.visit_fst first s e
    change (b.visit first s e).1.dialogue = e ∧ (b.visit first s e).1.said = 0
    rw [hv]
    exact ⟨rfl, rfl⟩
  | cons d ds ih => exact fun first b s => ih false (b.visit first s d).1 (b.visit first s d).2

theorem isFinished_finish (b : Background) (s : Stage) : (b.finish s).1.isFinished = true := by
  by_cases hb : b.isFinished = true
  · rw [show b.finish s = (b, s) from if_pos hb, hb]
  · rw [show b.finish s = _ from if_neg hb]
    rfl

/-- Where sentences are exhausted, there is no staying. -/
theorem isFinished_stay_iff (b : Background) (s : Stage) :
    (b.stay setting s).1.isFinished = true ↔ b.dialogue.sentences.length ≤ b.said := by
  unfold stay
  split
  case h_1 raw ho =>
    have hlt := (List.getElem?_eq_some_iff.1 (Dialogue.outlook_eq_sentence ho)).1
    exact iff_of_false (fun h => by cases h) (Nat.not_le.2 hlt)
  case h_2 hnot =>
    refine iff_of_true (b.isFinished_finish s) ?_
    obtain ⟨raw, -, ho⟩ | ⟨hlen, -⟩ | ⟨hlen, -⟩ :=
      ({ b.dialogue with choices := [] } : Dialogue).outlook_cases b.said
    · exact absurd ho (hnot raw)
    · exact hlen
    · exact hlen

/-- Whoever enters a dialogue is over right away if there is no sentence to show. -/
theorem isFinished_enter_iff (setting : Setting) (first : Bool) (d : Dialogue) (b : Background)
    (s : Stage) :
    (b.enter setting first d s).1.isFinished = true ↔ ¬ b.script.HasWord d := by
  unfold enter Conversation.HasWord
  split
  case h_1 passed e ht =>
    obtain ⟨hdialogue, hsaid⟩ := visitAll_at e passed first b s
    dsimp only
    rw [isFinished_stay_iff, hdialogue, hsaid, Nat.le_zero, List.length_eq_zero_iff, ht]
    simp
  case h_2 passed id ht =>
    refine iff_of_true (isFinished_finish _ _) ?_
    rintro ⟨_, _, h, -⟩
    cases ht.symm.trans h
  case h_3 ht =>
    refine iff_of_true (isFinished_finish _ _) ?_
    rintro ⟨_, _, h, -⟩
    cases ht.symm.trans h

theorem count_seenOf {e : Entry} (h : e.isSeen = true) (t : Trace) :
    (seenOf t).count e = t.count e := List.count_filter h

/-- **A background conversation reports that it starts and that it ends**, and closes its text box
as it ends, each once, whatever its script is like and whatever it is called for. But one that has
nothing to say at all is over as it starts, and reports no end. -/
theorem reports_meetAll {id : Nat} {name : String} {script : Conversation} {s s' : Stage}
    (h : Background.start setting id name script s = (.ok b, s')) (os : List BackgroundOccasion) :
    let x := meetAll (b, s') os
    announced x.2.events = announced s.events ++ .backgroundStarted id name ::
        (if x.1.isFinished && !b.isFinished then [.backgroundFinished id] else []) ∧
      x.2.trace.count (.close (.background id)) = s.trace.count (.close (.background id)) +
        (if x.1.isFinished && !b.isFinished then 1 else 0) ∧
      ∃ d, (script.startingPoint s.vars).value = some d ∧
        (b.isFinished = true ↔ ¬ script.HasWord d) := by
  intro x
  obtain ⟨d, hd, henter⟩ := exists_of_start h
  obtain ⟨hid, seen, hputs, hcount⟩ := reports_enter setting true d
    { id, name, script, dialogue := d }
    ((s.startingPoint script).2.report (.backgroundStarted id name))
  have hword := isFinished_enter_iff setting true d
    { id, name, script, dialogue := d }
    ((s.startingPoint script).2.report (.backgroundStarted id name))
  rw [henter] at hid hputs hcount hword
  -- it is over before it has entered a dialogue, so that no end is due yet
  rw [farewell_eq_nil fun _ => rfl] at hputs hcount
  obtain ⟨-, seen', hputs', hcount'⟩ := Reports.meetAll os (b, s')
  have hall := (puts_begin id name script s).trans (hputs.trans hputs')
  rw [channel, hid] at hcount'
  have hnone : seen.count (.close (.background id)) = 0 := hcount
  have hmore : seen'.count (.close (.background id)) = (b.farewell x.1).length := hcount'
  refine ⟨?_, ?_, d, hd, hword⟩
  · rw [hall.events, farewell, hid]
    rfl
  · rw [← count_seenOf rfl x.2.trace, hall.seenOf_trace, List.count_append, List.nil_append,
      List.count_append, hnone, hmore, count_seenOf rfl, Nat.zero_add, farewell,
      apply_ite List.length]
    rfl

end Background

/-- A conversation of one dialogue, with some sentences or none. -/
def Conversation.monologue (sentences : List String) : Conversation where
  background := true
  dialogues := [{ id := 0, sentences, startingPoint := true }]

namespace Background

theorem startingPoint_monologue (sentences : List String) (vars : Variables) :
    ((Conversation.monologue sentences).startingPoint vars).value =
      some { id := 0, sentences, startingPoint := true } := rfl

theorem reports_monologue :
    let setting : Setting := ⟨{}, default, fun _ => false⟩
    ∃ b s', Background.start setting 3 "b" (.monologue ["Psst."]) (.ofVariables .empty) =
        (.ok b, s') ∧
      let x := meetAll (b, s') [⟨.finish, setting, .empty, []⟩]
      announced x.2.events = announced [] ++ .backgroundStarted 3 "b" ::
          (if x.1.isFinished && !b.isFinished then [.backgroundFinished 3] else []) ∧
        x.2.trace.count (.close (.background 3)) = ([] : Trace).count (.close (.background 3)) +
          (if x.1.isFinished && !b.isFinished then 1 else 0) ∧
        ∃ d, ((Conversation.monologue ["Psst."]).startingPoint .empty).value = some d ∧
          (b.isFinished = true ↔ ¬ (Conversation.monologue ["Psst."]).HasWord d) := by
  intro setting
  have hstart := start_of_startingPoint setting 3 "b" (s := .ofVariables .empty)
    (startingPoint_monologue ["Psst."] .empty)
  exact ⟨_, _, hstart, reports_meetAll hstart [⟨.finish, setting, .empty, []⟩]⟩

/-- The conversation is over as it starts, without a report of the end and with its text box left
open. -/
theorem silent_monologue_ends_unreported :
    ∃ b s', Background.start ⟨{}, default, fun _ => false⟩ 3 "b" (.monologue [])
        (.ofVariables .empty) = (.ok b, s') ∧
      b.isFinished = true ∧ s'.events = [.backgroundStarted 3 "b"] ∧ s'.trace = [] :=
  ⟨_, _, start_of_startingPoint _ 3 "b" (startingPoint_monologue [] .empty), by decide +kernel,
    by decide +kernel, by decide +kernel⟩

end Background

end Colloquy
