import Colloquy.Proofs.Playback.Requests

/-!
# Proofs/Playback/Solo — a background conversation by itself

A background conversation may be performed without a session: it is started on a stage and called
from then on, whatever becomes of the settings, the variables and the requests in the meantime
(`Background.meetAll`). `Stage.Puts` says what is seen and what is announced as it is performed. The
reveal of a sentence is taken in one piece here: the characters that are due are seen, and the
conversation goes on as it was, unless a tag has ended it (`Background.RunsOn`). No call does
anything to one that is over (`Background.call_of_finished`).
-/

namespace Colloquy

open Markup

/-! ## What a background conversation is called for -/

/-- Something that a background conversation is called for. -/
inductive BackgroundCall
  | tick (dt : Single)
  | finish

/-- A call, and what the conversation finds as it is called: the settings, the variables, and the
requests that were not taken yet. -/
structure BackgroundOccasion where
  call : BackgroundCall
  setting : Setting
  vars : Variables
  requests : List Request

namespace Background

/-- The conversation and the stage after a call. -/
def call (setting : Setting) (b : Background) (s : Stage) : BackgroundCall → Background × Stage
  | .tick dt => b.tick setting dt s
  | .finish => b.finish s

/-- The conversation and the stage after one more call. -/
def meet (x : Background × Stage) (o : BackgroundOccasion) : Background × Stage :=
  x.1.call o.setting { x.2 with vars := o.vars, requests := o.requests } o.call

/-- The conversation and the stage after some more calls. -/
def meetAll (x : Background × Stage) (os : List BackgroundOccasion) : Background × Stage :=
  os.foldl meet x

end Background

/-! ## What is seen -/

/-- Whether an entry is seen by who watches: all are but deeds and asides. -/
def Entry.isSeen (e : Entry) : Bool := !(e.isDeed || e.isAside)

/-- What is seen of a trace. -/
def seenOf (t : Trace) : Trace := t.filter (·.isSeen)

@[simp] theorem seenOf_append (t u : Trace) : seenOf (t ++ u) = seenOf t ++ seenOf u :=
  List.filter_append ..

theorem seenOf_eq_nil {t : Trace} (h : ∀ e ∈ t, e.isDeed = true ∨ e.isAside = true) :
    seenOf t = [] :=
  List.filter_eq_nil_iff.2 fun e he => by
    simpa [Entry.isSeen, Classical.or_iff_not_imp_left] using h e he

/-- What is seen and what is announced has been added to a stage, and else only deeds and asides. -/
structure Stage.Puts (s s' : Stage) (seen : Trace) (es : List Event) : Prop where
  trace : ∃ t, s'.trace = s.trace ++ t ∧ seenOf t = seen
  events : announced s'.events = announced s.events ++ es

namespace Stage

theorem Puts.refl (s : Stage) : s.Puts s [] [] :=
  ⟨⟨[], (List.append_nil _).symm, rfl⟩, (List.append_nil _).symm⟩

theorem Puts.trans {s t u : Stage} {c d : Trace} {es fs : List Event} (h : s.Puts t c es)
    (k : t.Puts u d fs) : s.Puts u (c ++ d) (es ++ fs) := by
  obtain ⟨⟨v, hv, rfl⟩, hes⟩ := h
  obtain ⟨⟨w, hw, rfl⟩, hfs⟩ := k
  exact ⟨⟨v ++ w, by rw [hw, hv, List.append_assoc], seenOf_append v w⟩,
    by rw [hfs, hes, List.append_assoc]⟩

/-- Nothing is seen before. -/
theorem Puts.after {s t u : Stage} {c : Trace} {es : List Event} (k : t.Puts u c es)
    (h : s.Puts t [] []) : s.Puts u c es := h.trans k

/-- Nothing is seen after. -/
theorem Puts.before {s t u : Stage} {c : Trace} {es : List Event} (h : s.Puts t c es)
    (k : t.Puts u [] []) : s.Puts u c es := by
  have := h.trans k
  rwa [List.append_nil, List.append_nil] at this

theorem Puts.seenOf_trace {s s' : Stage} {c : Trace} {es : List Event} (h : s.Puts s' c es) :
    seenOf s'.trace = seenOf s.trace ++ c := by
  obtain ⟨⟨t, ht, rfl⟩, -⟩ := h
  rw [ht, seenOf_append]

theorem puts_observe (s : Stage) (t : Trace) : s.Puts (s.observe t) (seenOf t) [] :=
  ⟨⟨t, rfl, rfl⟩, (List.append_nil _).symm⟩

/-- Something is put where it is seen. -/
theorem puts_seen (s : Stage) {e : Entry} (h : e.isSeen = true) :
    s.Puts (s.observe [e]) [e] [] := by
  have := s.puts_observe [e]
  rwa [seenOf, List.filter_cons_of_pos h] at this

theorem puts_unseen (s : Stage) {t : Trace} (h : ∀ e ∈ t, e.isDeed = true ∨ e.isAside = true) :
    s.Puts (s.observe t) [] [] := by
  have := s.puts_observe t
  rwa [seenOf_eq_nil h] at this

theorem puts_report (s : Stage) (e : Event) : s.Puts (s.report e) [] (announced [e]) :=
  ⟨⟨[], (List.append_nil _).symm, rfl⟩, announced_append ..⟩

/-- What stands on a stage besides can change. -/
theorem puts_of_eq {s s' : Stage} (ht : s'.trace = s.trace) (he : s'.events = s.events) :
    s.Puts s' [] [] :=
  ⟨⟨[], by rw [ht, List.append_nil], rfl⟩, by rw [he, List.append_nil]⟩

theorem puts_annotate (s : Stage) (notes : List Note) : s.Puts (s.annotate notes) [] [] :=
  s.puts_unseen fun _ he => .inr (isAside_of_mem_notes he)

theorem puts_read (s : Stage) (raw : String) : s.Puts (s.read raw).2 [] [] :=
  (puts_unseen _ fun e he => .inr (isAside_of_mem_ofTokens _ _ e he)).after (puts_of_eq rfl rfl)

theorem puts_defer (s : Stage) (f : FollowUp) : s.Puts (s.defer f) [] [] := by
  cases f <;> exact puts_of_eq rfl rfl

/-- Nothing of a command is seen, before what is left to do for it. -/
theorem puts_carryOut (s : Stage) (setting : Setting) (declared : List Action) (k : Clock)
    (c : Command) : s.Puts (s.carryOut setting declared k c).stage [] [] := by
  cases c with
  | removeVariable name =>
    exact (puts_unseen _ fun e he => .inr (isAside_of_mem_remove he)).after (puts_of_eq rfl rfl)
  | log severity text =>
    exact s.puts_unseen fun e he => .inl (by rw [List.mem_singleton.1 he]; rfl)
  | sendMessage target message =>
    rw [carryOut]
    dsimp only
    split
    · exact s.puts_annotate _
    · exact s.puts_unseen fun _ => Action.isDeed_or_isAside_of_mem_deliver
  | perform name supplied =>
    exact s.puts_unseen fun _ => Action.isDeed_or_isAside_of_mem_performNamed
  | changeSprite set sprite => exact s.puts_annotate _
  | _ => exact .refl s

end Stage

/-! ## What is seen of a background conversation -/

/-- The anchor to move to on entering a dialogue, unless that is where one is. -/
def Dialogue.moveFrom? (here? : Option String) (d : Dialogue) : Option String :=
  d.anchor?.filter (here? ≠ some ·)

namespace Background

variable {setting : Setting} {b : Background}

theorem visit_eq (first : Bool) (b : Background) (s : Stage) (d : Dialogue) :
    b.visit first s d =
      match d.moveFrom? b.anchor with
      | some anchor =>
        ({ b with dialogue := d, sentenceIndex? := none, anchor := some anchor, moved := !first },
          s.observe [.anchor b.channel anchor])
      | none => ({ b with dialogue := d, sentenceIndex? := none }, s) := by
  unfold visit Dialogue.moveFrom?
  dsimp only
  cases d.anchor? with
  | none => rfl
  | some anchor =>
    dsimp only
    by_cases h : b.anchor = some anchor
    · simp [h, Option.filter]
    · simp only [h, if_false, Option.filter, ne_eq, not_false_eq_true, decide_true, if_true]
      rfl

/-- What is seen of a move. -/
theorem puts_visit (first : Bool) (b : Background) (s : Stage) (d : Dialogue) :
    s.Puts (b.visit first s d).2 ((d.moveFrom? b.anchor).toList.map (.anchor b.channel)) [] := by
  rw [visit_eq]
  cases d.moveFrom? b.anchor with
  | none => exact .refl s
  | some anchor => exact s.puts_seen rfl

/-- What is seen of a sentence as it is laid out. -/
theorem puts_say (setting : Setting) (raw : String) (b : Background) (s : Stage) :
    s.Puts (b.say setting raw s).2
      [.sentence b.channel (Reading.ofText s.vars raw).sentence.text b.dialogue.speaker?
        (b.lastSpeaker.isSome && b.lastSpeaker == b.dialogue.speaker?) true] [] :=
  (Stage.puts_seen _ rfl).after (s.puts_read raw)

theorem puts_finish (h : b.phase ≠ .finished) (s : Stage) :
    s.Puts (b.finish s).2 [.close b.channel] [.backgroundFinished b.id] := by
  rw [finish_of_active h]
  exact (s.puts_seen rfl).trans (Stage.puts_report _ _)

/-! ## A sentence in one piece -/

/-- What is known when steps of a reveal have been taken as far as the clock allowed: the characters
that were taken are seen, and the conversation has changed only if a tag has ended it. Something was
taken, unless the clock held back what came first. -/
def RunsOn (b : Background) (setting : Setting) (s : Stage) (bs : List Beat) (n : Nat) (k : Clock) :
    Progress × Background × Stage → Prop
  | (.waiting r, b', s') =>
    b' = b ∧ ∃ taken, bs = taken ++ r.pending ∧ (k.isWaiting = false → taken ≠ []) ∧
      r.revealed = n + (characters taken).length ∧
        s.Puts s' (.replicate (characters taken).length (.reveal b.channel)) []
  | (.finished, b', s') =>
    b' = b ∧ s.Puts s' (.replicate (characters bs).length (.reveal b.channel)) []
  | (.broken, b', s') =>
    b' = { b with phase := .finished } ∧ ∃ taken c rest, bs = taken ++ .tag c :: rest ∧
      c.raised? setting.accepts b.script.actions = some .closeBackgroundConversations ∧
        s.Puts s' (.replicate (characters taken).length (.reveal b.channel) ++ [.close b.channel])
          [.backgroundFinished b.id]

theorem length_characters_cons (beat : Beat) (bs : List Beat) :
    (characters (beat :: bs)).length = (characters [beat]).length + (characters bs).length := by
  rw [← List.length_append, ← characters_append, List.singleton_append]

/-- One more beat has been taken before. -/
theorem RunsOn.cons {s s' : Stage} {bs : List Beat} {n : Nat} {k k' : Clock} {beat : Beat}
    {x : Progress × Background × Stage}
    (hs : s.Puts s' (.replicate (characters [beat]).length (.reveal b.channel)) [])
    (h : RunsOn b setting s' bs (n + (characters [beat]).length) k' x) :
    RunsOn b setting s (beat :: bs) n k x := by
  obtain ⟨_ | _ | _, b', s''⟩ := x
  · obtain ⟨hb, taken, hbs, -, hn, hputs⟩ := h
    refine ⟨hb, beat :: taken, by rw [hbs, List.cons_append], fun _ => List.cons_ne_nil _ _, ?_, ?_⟩
    · rw [hn, length_characters_cons beat taken, Nat.add_assoc]
    · rw [length_characters_cons beat, ← List.replicate_append_replicate]
      exact hs.trans hputs
  · obtain ⟨hb, hputs⟩ := h
    refine ⟨hb, ?_⟩
    rw [length_characters_cons beat, ← List.replicate_append_replicate]
    exact hs.trans hputs
  · obtain ⟨hb, taken, c, rest, hbs, hc, hputs⟩ := h
    refine ⟨hb, beat :: taken, c, rest, by rw [hbs, List.cons_append], hc, ?_⟩
    rw [length_characters_cons beat, ← List.replicate_append_replicate, List.append_assoc]
    exact hs.trans hputs

theorem RunsOn.of_waiting {bs : List Beat} {n : Nat} {k : Clock} (hk : k.isWaiting = true)
    (s : Stage) : RunsOn b setting s bs n k (.waiting ⟨bs, n, k⟩, b, s) :=
  ⟨rfl, [], rfl, (fun h => by rw [hk] at h; cases h), rfl, .refl s⟩

/-- By induction on the beats to come. -/
theorem runsOn_runBeats (hb : b.phase ≠ .finished) (bs : List Beat) :
    ∀ {n : Nat} {k : Clock} {s : Stage}, RunsOn b setting s bs n k
      (Reveal.runBeats (handler setting b.script.actions) bs n k (b, s)) := by
  induction bs with
  | nil =>
    intro n k s
    unfold Reveal.runBeats
    split
    · exact .of_waiting ‹_› s
    · exact ⟨rfl, .refl s⟩
  | cons beat bs ih =>
    intro n k s
    cases beat with
    | character c =>
      unfold Reveal.runBeats
      split
      · exact .of_waiting ‹_› s
      · exact .cons (s.puts_seen rfl) ih
    | tag c =>
      unfold Reveal.runBeats
      split
      · exact .of_waiting ‹_› s
      · unfold handler
        dsimp only
        have hstage := s.puts_carryOut setting b.script.actions k c
        have hraised := s.request?_carryOut setting b.script.actions k c
        generalize s.carryOut setting b.script.actions k c = deed at hstage hraised ⊢
        by_cases hf : deed.followUp = .request .closeBackgroundConversations
        · rw [hf] at hraised ⊢
          rw [followUp, finish_of_active hb]
          refine ⟨rfl, [], c, bs, rfl, hraised.symm, ?_⟩
          have hfinish := puts_finish hb deed.stage
          rw [finish_of_active hb] at hfinish
          exact (hfinish.after hstage).before (Stage.puts_of_eq rfl rfl)
        · rw [followUp_eq hf, isFinished_eq_false hb]
          exact .cons (hstage.before (deed.stage.puts_defer _)) ih

theorem runsOn_run (setting : Setting) (hb : b.phase ≠ .finished) (r : Reveal) (s : Stage) :
    RunsOn b setting s r.pending r.revealed r.clock
      (r.run (handler setting b.script.actions) (b, s)) :=
  runsOn_runBeats hb r.pending

/-! ## Calls -/

/-- Nothing comes of a call to a conversation that is over. -/
theorem call_of_finished (h : b.isFinished = true) (s : Stage) (c : BackgroundCall) :
    b.call setting s c = (b, s) := by
  cases c with
  | tick dt =>
    have hp : b.phase = .finished := by simpa [isFinished] using h
    rw [call, tick, hp]
  | finish => exact if_pos h

theorem isFinished_meetAll (os : List BackgroundOccasion) :
    ∀ x : Background × Stage, x.1.isFinished = true → (meetAll x os).1.isFinished = true := by
  induction os with
  | nil => exact fun _ h => h
  | cons o os ih =>
    intro x h
    refine ih (meet x o) ?_
    rw [meet, call_of_finished h]
    exact h

/-! ## The start -/

/-- It is reported that one starts, before anything of it is seen. -/
theorem puts_begin (id : Nat) (name : String) (script : Conversation) (s : Stage) :
    s.Puts ((s.startingPoint script).2.report (.backgroundStarted id name)) []
      [.backgroundStarted id name] :=
  (Stage.puts_report _ (.backgroundStarted id name)).after (s.puts_annotate _)

/-- One that starts enters a dialogue of its script, and that it starts has been reported. -/
theorem start_of_startingPoint (setting : Setting) (id : Nat) (name : String)
    {script : Conversation} {s : Stage} {d : Dialogue}
    (hd : (script.startingPoint s.vars).value = some d) :
    Background.start setting id name script s =
      let x := enter setting true d { id, name, script, dialogue := d }
        ((s.startingPoint script).2.report (.backgroundStarted id name))
      (.ok x.1, x.2) := by
  unfold Background.start
  rw [show s.startingPoint script = (some d, (s.startingPoint script).2) by rw [← hd]; rfl]

theorem exists_of_start {id : Nat} {name : String} {script : Conversation} {s s' : Stage}
    (h : Background.start setting id name script s = (.ok b, s')) :
    ∃ d, (script.startingPoint s.vars).value = some d ∧
      enter setting true d { id, name, script, dialogue := d }
        ((s.startingPoint script).2.report (.backgroundStarted id name)) = (b, s') := by
  cases hd : (script.startingPoint s.vars).value with
  | none =>
    unfold Background.start at h
    rw [show s.startingPoint script = (none, (s.startingPoint script).2) by rw [← hd]; rfl] at h
    cases h
  | some d =>
    rw [start_of_startingPoint setting id name hd] at h
    cases h
    exact ⟨d, rfl, rfl⟩

end Background

end Colloquy
