import Colloquy.Proofs.Playback.Observed

/-!
# Proofs/Playback/Coherence — a player knows where it is

A player may be asked for anything, in any order, with any script: one whose links lead nowhere,
whose ids are not unique, whose dialogues have nothing to say (`PlayerCall`). Whatever it is asked
for, what it is doing, where it is in the script and what was shown on the main text box fit
together (`Coherent`). Scripts need not be sound here, so that a way may end at any link; what
carries the argument is that a performance goes on only by a sentence or by choices of a dialogue
that is one of its script (`settled_stay`). Some of it is so of any `Player`, idle or not; where the
same is kept in fields that stand side by side, all of it takes proof (Proofs/Playback/Legibility).
-/

namespace Colloquy

open Markup

/-! ## What a player is asked for -/

/-- Something that a player is asked for. -/
inductive PlayerCall
  | start (name : String) (script : Conversation)
  | next
  | select (index : Nat)
  | stop
  | theme (name : String)
  | tick (dt : Single)

/-- A call, and what the player finds as it is called: the settings, the variables, and the requests
and events that were not taken yet. -/
structure Occasion where
  call : PlayerCall
  setting : Setting
  vars : Variables
  requests : List Request
  events : List Event

/-- What a player is doing. -/
inductive Activity
  | idle
  | active
  | choosing
deriving DecidableEq, Repr

namespace Player

/-- The player and the stage after a call. -/
def call (setting : Setting) (p : Player) (s : Stage) : PlayerCall → Player × Stage
  | .start name script =>
    ((p.start setting name script s).player, (p.start setting name script s).stage)
  | .next => ((p.next setting s).player, (p.next setting s).stage)
  | .select index => ((p.select setting index s).player, (p.select setting index s).stage)
  | .stop => p.stop s
  | .theme name => p.changeTheme name s
  | .tick dt => p.tick setting dt s

/-- The player and all that was observed, after one more call. -/
def meet (x : Player × Trace) (o : Occasion) : Player × Trace :=
  let played := x.1.call o.setting ⟨o.vars, o.requests, o.events, x.2⟩ o.call
  (played.1, played.2.trace)

/-- The player and all that was observed, after some calls. -/
def meetAll (os : List Occasion) : Player × Trace := os.foldl meet (.idle, [])

/-- What a player is doing. -/
def activity (p : Player) : Activity :=
  match p.playing with
  | none => .idle
  | some q => if q.phase = .choosing then .choosing else .active

end Player

/-! ## What was shown -/

/-- Whether an entry tells how far things are on the main text box. -/
def Entry.isProgress : Entry → Bool
  | sentence .main .. | reveal .main | revealed .main | options _ | close .main => true
  | _ => false

/-- What was observed of how far things are on the main text box. -/
def progressOf (t : Trace) : Trace := t.filter (·.isProgress)

/-- A sentence was laid out last, and so many characters of it were revealed since, all of it or
not. -/
def Trace.LastShows (t : Trace) (s : Sentence) (revealed : Nat) (whole : Bool) : Prop :=
  ∃ before speaker sameSpeaker auto, progressOf t =
    before ++ .sentence .main s.text speaker sameSpeaker auto ::
      (List.replicate revealed (.reveal .main) ++ if whole then [.revealed .main] else [])

/-- A reveal is that of a sentence: the beats of it that were not taken are to come. -/
def Reveal.IsOf (r : Reveal) (s : Sentence) : Prop :=
  ∃ taken, s.beats = taken ++ r.pending ∧ r.revealed = (characters taken).length

/-- The sentence of a performance stands where its index says, in the dialogue that it is in. -/
def Performance.Says (q : Performance) : Prop :=
  ∃ i raw vars, q.sentenceIndex? = some i ∧ q.dialogue.sentences[i]? = some raw ∧
    q.sentence = (Reading.ofText vars raw).sentence

/-- What a player is doing, where it is and what was shown fit together. -/
structure Coherent (p : Player) (t : Trace) : Prop where
  /-- It is idle if no conversation is held, and only then. -/
  idle_iff : p.activity = .idle ↔ p.playing = none
  /-- Nothing is left over of a conversation that has ended. -/
  of_idle : p.activity = .idle →
    p.isRevealing = false ∧ p.playing.bind (·.sentenceIndex?) = none ∧ p.text? = none
  /-- The dialogue is one of the script. -/
  dialogue : ∀ q, p.playing = some q → ∃ i : Nat, q.script.dialogues[i]? = some q.dialogue
  /-- What is revealed is the sentence of the dialogue that was laid out last, and so much of it was
  revealed as the reveal says. -/
  of_reveal : ∀ q r, p.playing = some q → q.reveal? = some r →
    p.activity = .active ∧ p.text? = some q.sentence.text ∧ q.Says ∧ r.IsOf q.sentence ∧
      t.LastShows q.sentence r.revealed false
  /-- Where nothing is revealed, the sentence that was laid out last is whole. -/
  of_active : ∀ q, p.playing = some q → p.activity = .active → q.reveal? = none →
    q.Says ∧ t.LastShows q.sentence q.sentence.size true
  /-- Where choices are offered, there are some, and nothing is revealed. -/
  of_choosing : ∀ q, p.playing = some q → p.activity = .choosing →
    q.reveal? = none ∧ q.dialogue.choices ≠ []

/-! ## Progress and asides -/

theorem progressOf_append (t u : Trace) : progressOf (t ++ u) = progressOf t ++ progressOf u :=
  List.filter_append ..

/-- Progress is made by calls alone. -/
theorem progressOf_callsOf (t : Trace) : progressOf (callsOf t) = progressOf t := by
  rw [progressOf, callsOf, List.filter_filter]
  refine List.filter_congr fun e _ => ?_
  cases e with
  | sentence c | reveal c | revealed c | close c => cases c <;> rfl
  | _ => rfl

theorem Stage.Adds.progressOf_trace {s s' : Stage} {calls : Trace} {es : List Event}
    (h : s.Adds s' calls es) : progressOf s'.trace = progressOf s.trace ++ progressOf calls := by
  rw [← progressOf_callsOf s'.trace, h.callsOf_trace, progressOf_append, progressOf_callsOf]

/-- Deeds, speakers and portraits are no progress. -/
theorem progressOf_eq_nil {t : Trace}
    (h : ∀ e ∈ t, e.isDeed = true ∨ e.introduces .main) : progressOf t = [] := by
  refine List.filter_eq_nil_iff.2 fun e he => ?_
  obtain hdeed | ⟨name, rfl⟩ | ⟨image?, rfl⟩ := h e he
  · cases e <;> simp [Entry.isDeed, Entry.isProgress] at hdeed ⊢
  · simp [Entry.isProgress]
  · simp [Entry.isProgress]

theorem Trace.LastShows.congr {t u : Trace} {s : Sentence} {n : Nat} {whole : Bool}
    (h : t.LastShows s n whole) (htu : progressOf u = progressOf t) : u.LastShows s n whole := by
  obtain ⟨before, speaker, same, auto, ht⟩ := h
  exact ⟨before, speaker, same, auto, htu.trans ht⟩

/-! ## What a player relies on -/

/-- What a performance is in the midst of. -/
def Performance.Settled (q : Performance) (t : Trace) : Prop :=
  match q.phase with
  | .revealing r => q.Says ∧ r.IsOf q.sentence ∧ t.LastShows q.sentence r.revealed false
  | .settled => q.Says ∧ t.LastShows q.sentence q.sentence.size true
  | .choosing => q.dialogue.choices ≠ []

namespace Player

/-- A performance is in a dialogue of its script, and in the midst of what it says it is. -/
def Settled (p : Player) (t : Trace) : Prop :=
  ∀ q, p.playing = some q → q.dialogue ∈ q.script.dialogues ∧ q.Settled t

theorem settled_of_idle {p : Player} (h : p.playing = none) (t : Trace) : p.Settled t := by
  intro q hq
  rw [h] at hq
  cases hq

/-- Asides change nothing. -/
theorem Settled.same {p p' : Player} {s s' : Stage} (h : p.Settled s.trace)
    (hp : p'.playing = p.playing) (hs : s.Same s') : p'.Settled s'.trace := by
  have htrace : progressOf s'.trace = progressOf s.trace := by
    rw [Stage.Adds.progressOf_trace hs]
    exact List.append_nil _
  intro q hq
  obtain ⟨hd, hq⟩ := h q (hp ▸ hq)
  refine ⟨hd, ?_⟩
  unfold Performance.Settled at hq ⊢
  split at hq
  · exact ⟨hq.1, hq.2.1, hq.2.2.congr htrace⟩
  · exact ⟨hq.1, hq.2.congr htrace⟩
  · exact hq

theorem settled_stop (p : Player) (s : Stage) : (p.stop s).1.Settled (p.stop s).2.trace := by
  refine settled_of_idle ?_ _
  cases h : p.playing with
  | none => rw [stop_of_idle h, h]
  | some q => rw [stop_of_playing h]

theorem settled_refuse {p : Player} {s : Stage} (h : p.Settled s.trace) (e : PlaybackError)
    (note : Note) : (p.refuse e note s).player.Settled (p.refuse e note s).stage.trace :=
  h.same rfl (s.same_annotate [note])

/-! ## Going on in a script -/

variable {setting : Setting} {q : Performance}

/-- A sentence that is said is laid out, and nothing of it is revealed. -/
theorem settled_say (hd : q.dialogue ∈ q.script.dialogues) {raw : String}
    (hraw : q.dialogue.sentences[q.said]? = some raw) (p : Player) (s : Stage) :
    (p.say setting q raw s).1.Settled (p.say setting q raw s).2.trace := by
  intro q' hq'
  rw [playing_say] at hq'
  cases hq'
  refine ⟨hd, ⟨q.said, raw, s.vars, rfl, hraw, rfl⟩, ⟨[], rfl, rfl⟩, ?_⟩
  obtain ⟨calls, ⟨same, auto, rest, rfl, hrest⟩, hadds⟩ := p.shows_say setting q raw s q.said
  refine ⟨progressOf s.trace, q.dialogue.speaker?, same, auto, ?_⟩
  rw [hadds.progressOf_trace]
  refine congrArg _ ?_
  rw [progressOf, List.filter_cons_of_pos rfl, ← progressOf,
    progressOf_eq_nil fun e he => .inr (hrest e he)]
  rfl

/-- Where a performance goes on, it is by a sentence or by choices of the dialogue it is in. -/
theorem settled_stay (hd : q.dialogue ∈ q.script.dialogues) (p : Player) (s : Stage) :
    (p.stay setting q s).1.Settled (p.stay setting q s).2.trace := by
  unfold stay
  split
  · exact settled_say hd (Dialogue.outlook_eq_sentence ‹_›) p s
  · intro q' hq'
    cases hq'
    exact ⟨hd, (Dialogue.outlook_eq_choices ‹_›).2⟩
  all_goals exact settled_stop _ _

end Player

namespace Conversation

/-- What links lead on is kept on a trail, by what is passed and by where it ends. -/
theorem forall_of_trailWithin? {c : Conversation} {outlook : Dialogue → Outlook}
    {P : Dialogue → Prop}
    (hP : ∀ {d e id}, P d → outlook d = .link id → c.dialogue? id = some e → P e) {links : Nat} :
    ∀ {d : Dialogue} {passed : List Dialogue} {landing : Landing}, P d →
      c.trailWithin? outlook links d = some ⟨passed, landing⟩ →
        (∀ e ∈ passed, P e) ∧ ∀ e, landing = .at e → P e := by
  induction links with
  | zero =>
    intro d passed landing hd h
    unfold trailWithin? at h
    split at h
    · split at h
      · cases h
        exact ⟨List.forall_mem_singleton.2 hd, fun e he => by cases he⟩
      · cases h
    · cases h
      exact ⟨List.forall_mem_nil _, fun e he => by cases he; exact hd⟩
  | succ links ih =>
    intro d passed landing hd h
    unfold trailWithin? at h
    split at h
    case h_1 id ho =>
      split at h
      case h_1 =>
        cases h
        exact ⟨List.forall_mem_singleton.2 hd, fun e he => by cases he⟩
      case h_2 e he =>
        obtain ⟨⟨passed', landing'⟩, ht, heq⟩ := Option.map_eq_some_iff.1 h
        cases heq
        obtain ⟨hpassed, hlanding⟩ := ih (hP hd ho he) ht
        exact ⟨List.forall_mem_cons.2 ⟨hd, hpassed⟩, hlanding⟩
    case h_2 =>
      cases h
      exact ⟨List.forall_mem_nil _, fun e he => by cases he; exact hd⟩

/-- Wherever a trail ends, it is at a dialogue of the script. -/
theorem mem_of_trailWithin? {c : Conversation} {outlook : Dialogue → Outlook} {links : Nat}
    {d e : Dialogue} {passed : List Dialogue} (hd : d ∈ c.dialogues)
    (h : c.trailWithin? outlook links d = some ⟨passed, .at e⟩) : e ∈ c.dialogues :=
  (forall_of_trailWithin? (fun _ _ he => (mem_of_dialogue? he).1) hd h).2 e rfl

end Conversation

namespace Player

variable {setting : Setting} {q : Performance}

theorem settled_enter {d : Dialogue} (hd : d ∈ q.script.dialogues) (p : Player) (s : Stage) :
    (p.enter setting q d s).1.Settled (p.enter setting q d s).2.trace := by
  unfold enter
  split
  · exact settled_stay (q := q.move _) (Conversation.mem_of_trailWithin? hd ‹_›) p s
  all_goals exact settled_stop _ _

theorem settled_goTo (id : Int32) (p : Player) (s : Stage) :
    (p.goTo setting q id s).player.Settled (p.goTo setting q id s).stage.trace := by
  unfold goTo
  split
  · exact settled_enter (Conversation.mem_of_dialogue? ‹_›).1 p s
  · exact settled_stop _ _

theorem settled_advance (hd : q.dialogue ∈ q.script.dialogues) (p : Player) (s : Stage) :
    (p.advance setting q s).1.Settled (p.advance setting q s).2.trace := by
  unfold advance
  split
  · exact settled_goTo _ p s
  · exact settled_stay hd p s

theorem settled_choose (c : Choice) (p : Player) (s : Stage) :
    (p.choose setting q c s).player.Settled (p.choose setting q c s).stage.trace := by
  unfold choose
  dsimp only
  split
  · exact settled_goTo _ _ _
  · exact settled_stop _ _

/-! ## What is revealed -/

/-- What is known when steps have been taken as far as the clock allowed: of the sentence so much
has been revealed as the reveal says, or all of it, unless the conversation has ended. -/
def SettledAfter (q : Performance) : Progress × Player × Stage → Prop
  | (.waiting r, p, s) =>
    p.playing = some q ∧ r.IsOf q.sentence ∧ Trace.LastShows s.trace q.sentence r.revealed false
  | (.finished, p, s) =>
    p.playing = some q ∧ Trace.LastShows s.trace q.sentence q.sentence.size false
  | (.broken, p, _) => p.playing = none

/-- A character is revealed behind those that were. -/
theorem lastShows_reveal {s : Stage} {sentence : Sentence} {n : Nat}
    (h : Trace.LastShows s.trace sentence n false) :
    Trace.LastShows (s.observe [.reveal .main]).trace sentence (n + 1) false := by
  obtain ⟨before, speaker, same, auto, ht⟩ := h
  refine ⟨before, speaker, same, auto, ?_⟩
  rw [Stage.observe, progressOf_append, ht, List.append_assoc, List.cons_append,
    List.replicate_succ', if_neg Bool.false_ne_true, List.append_nil, List.append_nil]
  rfl

/-- A command is carried out without progress, and the conversation goes on, unless it is to
end. -/
theorem followUp_carryOut {p : Player} {s : Stage} {k : Clock} {c : Command} {deed : Deed}
    (hdeed : s.carryOut setting q.script.actions k c = deed) (hq : p.playing = some q) :
    (p.followUp deed.stage deed.followUp).1.playing = none ∨
      (p.followUp deed.stage deed.followUp).1.playing = some q ∧
        progressOf (p.followUp deed.stage deed.followUp).2.trace = progressOf s.trace := by
  by_cases hf : deed.followUp = .request .closeConversation
  · refine .inl ?_
    rw [hf, followUp, answer, stop_of_playing hq]
  · refine .inr ⟨(playing_followUp hf p _).trans hq, ?_⟩
    obtain ⟨deeds, hdeeds, hadds⟩ := s.acts_carryOut setting q.script.actions k c
    obtain ⟨calls, hcalls, hafter⟩ := adds_followUp hf p deed.stage
    rw [hdeed] at hadds
    rw [hafter.progressOf_trace, hadds.progressOf_trace,
      progressOf_eq_nil fun e he => .inl (hdeeds e he),
      progressOf_eq_nil fun e he => .inr (.inr (hcalls e he)), List.append_nil, List.append_nil]

/-- By induction on the beats to come; the performance stays as it was before the first of them. -/
theorem settledAfter_runBeats (bs : List Beat) :
    ∀ {taken : List Beat} {k : Clock} {p : Player} {s : Stage}, p.playing = some q →
      q.sentence.beats = taken ++ bs →
        Trace.LastShows s.trace q.sentence (characters taken).length false →
          SettledAfter q (Reveal.runBeats (handler setting q.script.actions) bs
            (characters taken).length k (p, s)) := by
  induction bs with
  | nil =>
    intro taken k p s hq hbeats hshows
    unfold Reveal.runBeats
    split
    · exact ⟨hq, ⟨taken, hbeats, rfl⟩, hshows⟩
    · refine ⟨hq, ?_⟩
      rwa [Sentence.size, Sentence.visible, hbeats, List.append_nil]
  | cons b bs ih =>
    intro taken k p s hq hbeats hshows
    have hrest : q.sentence.beats = (taken ++ [b]) ++ bs := by
      rw [hbeats, List.append_assoc, List.singleton_append]
    cases b with
    | character c =>
      have hlen : (characters (taken ++ [.character c])).length =
          (characters taken).length + 1 := by simp
      unfold Reveal.runBeats
      split
      · exact ⟨hq, ⟨taken, hbeats, rfl⟩, hshows⟩
      · rw [← hlen]
        refine ih hq hrest ?_
        rw [hlen]
        exact lastShows_reveal hshows
    | tag c =>
      have hlen : (characters (taken ++ [.tag c])).length = (characters taken).length := by simp
      unfold Reveal.runBeats
      split
      · exact ⟨hq, ⟨taken, hbeats, rfl⟩, hshows⟩
      · unfold handler
        dsimp only
        obtain hover | ⟨hp, htrace⟩ :=
          followUp_carryOut (rfl : s.carryOut setting q.script.actions k c = _) hq
        · rw [hover]
          exact hover
        · rw [hp, ← hlen]
          refine ih hp hrest ?_
          rw [hlen]
          exact hshows.congr htrace

theorem settled_tick {p : Player} {s : Stage} (h : p.Settled s.trace) (dt : Single) :
    (p.tick setting dt s).1.Settled (p.tick setting dt s).2.trace := by
  unfold tick
  cases hq : p.playing with
  | none => exact h
  | some q =>
    obtain ⟨hd, hsettled⟩ := h q hq
    unfold Performance.Settled at hsettled
    -- only what is being revealed takes notice of time
    cases hp : q.phase with
    | settled =>
      simp only [Option.bind_some, Performance.reveal?, hp, Option.map_none]
      exact h
    | choosing =>
      simp only [Option.bind_some, Performance.reveal?, hp, Option.map_none]
      exact h
    | revealing r =>
      rw [hp] at hsettled
      obtain ⟨hstands, ⟨taken, hbeats, hrevealed⟩, hshows⟩ := hsettled
      rw [hrevealed] at hshows
      have hrun : SettledAfter q ((r.elapse dt).run (handler setting q.script.actions) (p, s)) := by
        unfold Reveal.run
        rw [show (r.elapse dt).revealed = _ from hrevealed]
        exact settledAfter_runBeats r.pending hq hbeats hshows
      simp only [Option.bind_some, Performance.reveal?, hp, Option.map_some]
      generalize (r.elapse dt).run (handler setting q.script.actions) (p, s) = run at hrun ⊢
      obtain ⟨_ | _ | _, p', s'⟩ := run
      · obtain ⟨-, hof, hshows⟩ := hrun
        intro q' hq'
        cases hq'
        exact ⟨hd, hstands, hof, hshows⟩
      · obtain ⟨-, before, speaker, same, auto, ht⟩ := hrun
        dsimp only
        split
        · exact settled_advance hd _ _
        · intro q' hq'
          cases hq'
          refine ⟨hd, hstands, before, speaker, same, auto, ?_⟩
          rw [Stage.observe, progressOf_append, ht, if_neg Bool.false_ne_true, List.append_nil,
            List.append_assoc]
          rfl
      · exact settled_of_idle hrun _

/-! ## Calls -/

theorem settled_start {p : Player} {s : Stage} (h : p.Settled s.trace) (name : String)
    (script : Conversation) :
    (p.start setting name script s).player.Settled (p.start setting name script s).stage.trace := by
  unfold start
  split
  · exact settled_refuse h _ _
  · rename_i hp
    have hidle : p.playing = none := by simpa using hp
    cases hd : (script.startingPoint s.vars).value with
    | none =>
      rw [show s.startingPoint script = (none, (s.startingPoint script).2) by rw [← hd]; rfl]
      exact settled_of_idle hidle _
    | some d =>
      rw [show s.startingPoint script = (some d, (s.startingPoint script).2) by rw [← hd]; rfl]
      exact settled_enter (Conversation.mem_of_startingPoint hd) _ _

theorem settled_next {p : Player} {s : Stage} (h : p.Settled s.trace) :
    (p.next setting s).player.Settled (p.next setting s).stage.trace := by
  unfold next
  split
  · exact h
  · split
    · exact settled_refuse h _ _
    · exact settled_refuse h _ _
    · exact settled_advance (h _ ‹_›).1 p s

theorem settled_select {p : Player} {s : Stage} (h : p.Settled s.trace) (index : Nat) :
    (p.select setting index s).player.Settled (p.select setting index s).stage.trace := by
  unfold select
  split
  · exact h
  · split
    · split
      · exact settled_choose _ p s
      · exact settled_refuse h _ _
    · exact settled_refuse h _ _

/-- **Each call leaves a player in the midst of what it says it is.** -/
theorem settled_call {p : Player} {s : Stage} (h : p.Settled s.trace) (c : PlayerCall) :
    (p.call setting s c).1.Settled (p.call setting s c).2.trace := by
  cases c with
  | start name script => exact settled_start h name script
  | next => exact settled_next h
  | select index => exact settled_select h index
  | stop => exact settled_stop p s
  | theme name => exact h.same rfl (p.same_changeTheme name s)
  | tick dt => exact settled_tick h dt

/-- A player that is in the midst of what it says it is is coherent. -/
theorem Settled.coherent {p : Player} {t : Trace} (h : p.Settled t) : Coherent p t := by
  have hactivity : ∀ {q}, p.playing = some q →
      p.activity = if q.phase = .choosing then .choosing else .active := by
    intro q hq
    rw [activity, hq]
  constructor
  case idle_iff =>
    unfold activity
    split
    · simp [*]
    · simp only [*, reduceCtorEq, iff_false]
      split <;> simp
  case of_idle =>
    intro hidle
    cases hq : p.playing with
    | none => simp [isRevealing, text?, hq]
    | some q =>
      rw [hactivity hq] at hidle
      split at hidle <;> cases hidle
  case dialogue =>
    intro q hq
    exact List.mem_iff_getElem?.1 (h q hq).1
  case of_reveal =>
    intro q r hq hr
    obtain ⟨-, hsettled⟩ := h q hq
    unfold Performance.reveal? at hr
    unfold Performance.Settled at hsettled
    rw [hactivity hq]
    cases hp : q.phase with
    | revealing r' =>
      rw [hp] at hr hsettled
      cases hr
      exact ⟨rfl, by rw [text?, hq]; rfl, hsettled⟩
    | _ =>
      rw [hp] at hr
      cases hr
  case of_active =>
    intro q hq ha hr
    obtain ⟨-, hsettled⟩ := h q hq
    unfold Performance.reveal? at hr
    unfold Performance.Settled at hsettled
    rw [hactivity hq] at ha
    cases hp : q.phase with
    | settled =>
      rw [hp] at hsettled
      exact hsettled
    | revealing r =>
      rw [hp] at hr
      cases hr
    | choosing =>
      rw [if_pos hp] at ha
      cases ha
  case of_choosing =>
    intro q hq ha
    obtain ⟨-, hsettled⟩ := h q hq
    unfold Performance.Settled at hsettled
    unfold Performance.reveal?
    rw [hactivity hq] at ha
    cases hp : q.phase with
    | choosing =>
      rw [hp] at hsettled
      exact ⟨rfl, hsettled⟩
    | _ =>
      rw [hp] at ha
      cases ha

/-- **A player knows where it is**, whatever scripts it is given, whatever it is asked for and
whatever happens around it in the meantime. -/
theorem coherent_meetAll (os : List Occasion) : Coherent (meetAll os).1 (meetAll os).2 := by
  have hfold : ∀ x : Player × Trace, x.1.Settled x.2 →
      (os.foldl meet x).1.Settled (os.foldl meet x).2 := by
    induction os with
    | nil => exact fun x hx => hx
    | cons o os ih =>
      intro x hx
      exact ih _ (settled_call (s := ⟨o.vars, o.requests, o.events, x.2⟩) hx o.call)
  exact (hfold (.idle, []) (settled_of_idle rfl _)).coherent

end Player

end Colloquy
