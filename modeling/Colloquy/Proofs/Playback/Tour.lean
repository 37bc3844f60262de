import Colloquy.Proofs.Playback.Bare
import Colloquy.Proofs.Playback.Itinerary

/-!
# Proofs/Playback/Tour — a background conversation keeps to an itinerary

A background conversation whose script has passed the check goes on from dialogue to dialogue and
says what there is to say, and nothing else is seen of it: `Background.itinerary_meetAll`. At any
time it stands at the last utterance of a visit (`Background.Stands`). A call may reveal more of
that utterance, add one to the visit, or add a visit; there is a lemma for each, and each says what
is seen and which reveal begins (`Background.KeepsTo`).
-/

namespace Colloquy

open Markup

/-! ## The reveals that begin -/

/-- Whether an entry lays out a sentence. -/
def Entry.isSentence : Entry → Bool
  | sentence .. => true
  | _ => false

namespace Background

/-- The reveal that goes on. -/
def reveal? (b : Background) : Option Reveal :=
  match b.phase with
  | .revealing r => some r
  | _ => none

/-- The reveal that has begun since a stage, if a sentence has been laid out since, with the timings
that hold. -/
def begun? (timings : Timings) (s : Stage) (x : Background × Stage) : Option (Timings × Reveal) :=
  if (x.2.trace.drop s.trace.length).any (·.isSentence) then x.1.reveal?.map (timings, ·) else none

/-- The reveals that begin in some calls, with the timings that hold then. -/
def begunAll (x : Background × Stage) : List BackgroundOccasion → List (Timings × Reveal)
  | [] => []
  | o :: os =>
    (begun? o.setting.config.timings x.2 (meet x o)).toList ++ begunAll (meet x o) os

/-- A sentence that is laid out is seen. -/
theorem begun?_of_puts {timings : Timings} {s : Stage} {x : Background × Stage} {seen : Trace}
    {es : List Event} (h : s.Puts x.2 seen es) :
    begun? timings s x =
      if seen.any (·.isSentence) then x.1.reveal?.map (timings, ·) else none := by
  obtain ⟨⟨t, ht, rfl⟩, -⟩ := h
  have hany : (seenOf t).any (·.isSentence) = t.any (·.isSentence) := by
    rw [seenOf, List.any_filter]
    refine congrArg (List.any t) (funext fun e => ?_)
    cases e <;> rfl
  rw [begun?, ht, List.drop_left, hany]

/-- Where nothing has been observed, no reveal has begun. -/
theorem begun?_of_eq {timings : Timings} {s : Stage} {x : Background × Stage}
    (h : x.2.trace = s.trace) : begun? timings s x = none := by
  rw [begun?, h, List.drop_length]
  rfl

end Background

/-! ## Why a conversation is over -/

/-- Why a background conversation may be over after some calls, in some visit. -/
inductive Concluded (script : Conversation) (os : List BackgroundOccasion) (v : Visit) : Prop
  /-- All of the dialogue has been said, and it leads nowhere. -/
  | exhausted (hv : v.Complete) (hn : v.dialogue.next? = none)
  /-- A tag asked for it, which comes after the characters that have been revealed. -/
  | asked {u : Utterance} {taken rest : List Beat} {c : Command} {accepts : String → Bool}
    (hu : v.utterances.getLast? = some u) (hbeats : u.sentence.beats = taken ++ .tag c :: rest)
    (hrevealed : u.revealed = (characters taken).length)
    (hc : c.raised? accepts script.actions = some .closeBackgroundConversations)
  /-- It was called for. -/
  | called {o : BackgroundOccasion} (ho : o ∈ os) (hf : o.call = .finish)

/-- A reason stays one. -/
theorem Concluded.mono {script : Conversation} {os os' : List BackgroundOccasion} {v : Visit}
    (h : Concluded script os v) (hos : os ⊆ os') : Concluded script os' v := by
  cases h with
  | exhausted hv hn => exact .exhausted hv hn
  | asked hu hbeats hrevealed hc => exact .asked hu hbeats hrevealed hc
  | called ho hf => exact .called (hos ho) hf

namespace Background

/-! ## Where a conversation stands -/

/-- A conversation is in a visit, at the last utterance of it. -/
structure Stands (b : Background) (v : Visit) (us : List Utterance) (u : Utterance) : Prop where
  sound : b.Sound
  dialogue : b.dialogue = v.dialogue
  utterances : v.utterances = us ++ [u]
  place : b.sentenceIndex? = some us.length
  anchor : b.anchor = v.anchor?
  moved : b.moved = false
  revealing : ∀ r, b.phase = .revealing r → u.whole = false ∧
    ∃ taken, u.sentence.beats = taken ++ r.pending ∧ u.revealed = (characters taken).length
  holding : ∀ x, b.phase = .holding x → u.whole = true

theorem Stands.said {b : Background} {v : Visit} {us : List Utterance} {u : Utterance}
    (h : b.Stands v us u) : b.said = v.utterances.length := by
  rw [Background.said, h.place, h.utterances, List.length_append]
  rfl

/-- From here on, some visits have become others, as was seen. -/
structure Carries (timings : Timings) (b : Background) (s : Stage) (visits : List Visit)
    (y : Background × Stage) (visits' : List Visit) : Prop where
  id : y.1.id = b.id
  script : y.1.script = b.script
  seen : ∃ new es, visits'.flatMap (Visit.seen b.channel) =
      visits.flatMap (Visit.seen b.channel) ++ new ∧
    s.Puts y.2 (new ++ if y.1.isFinished then [.close b.channel] else []) es
  reveals : visits'.flatMap Visit.reveals =
    visits.flatMap Visit.reveals ++ (begun? timings s y).toList

/-- A conversation keeps to an itinerary: it stands in the last visit of one, which has come about
from another one as was seen, and if it is over, there is a reason. -/
def KeepsTo (timings : Timings) (vars : Variables) (os : List BackgroundOccasion) (b : Background)
    (s : Stage) (visits : List Visit) (y : Background × Stage) : Prop :=
  ∃ past v us u, Itinerary b.script vars (past ++ [v]) ∧ y.1.Stands v us u ∧
    Carries timings b s visits y (past ++ [v]) ∧
      (y.1.isFinished = true → Concluded b.script os v)

variable {timings : Timings} {vars : Variables} {os : List BackgroundOccasion} {b : Background}
  {past : List Visit} {v : Visit} {us : List Utterance} {u : Utterance} {s s' : Stage}

/-- The conversation goes on. -/
theorem Carries.of_open {y : Background × Stage} {visits visits' : List Visit} {new : Trace}
    {es : List Event} (hid : y.1.id = b.id) (hscript : y.1.script = b.script)
    (hopen : y.1.isFinished = false)
    (hseen : visits'.flatMap (Visit.seen b.channel) = visits.flatMap (Visit.seen b.channel) ++ new)
    (hputs : s.Puts y.2 new es)
    (hreveals : visits'.flatMap Visit.reveals = visits.flatMap Visit.reveals ++
      (if new.any (·.isSentence) then y.1.reveal?.map (timings, ·) else none).toList) :
    Carries timings b s visits y visits' := by
  have hnone : new ++ (if y.1.isFinished then [.close b.channel] else []) = new := by simp [hopen]
  exact ⟨hid, hscript, ⟨new, es, hseen, by rwa [hnone]⟩, by rwa [begun?_of_puts hputs]⟩

/-! ## More of a sentence -/

theorem mem_last (hit : Itinerary b.script vars (past ++ [v])) : v.Faithful :=
  hit.faithful v (List.mem_append_right _ (List.mem_singleton_self v))

/-- More of the last utterance is revealed, and maybe the conversation is over then. -/
theorem keepsTo_goOn (hit : Itinerary b.script vars (past ++ [v])) (h : b.Stands v us u)
    (hw : u.whole = false) (n : Nat) (whole : Bool) (hn : u.revealed + n ≤ u.sentence.size)
    (hwhole : whole = true → u.revealed + n = u.sentence.size) {phase : AmbientPhase}
    {es : List Event} (hputs : s.Puts s' ((.replicate n (.reveal b.channel) ++
      if whole then [.revealed b.channel] else []) ++
        if ({ b with phase } : Background).isFinished then [.close b.channel] else []) es)
    (hrevealing : ∀ r, phase = .revealing r → whole = false ∧
      ∃ taken, u.sentence.beats = taken ++ r.pending ∧ u.revealed + n = (characters taken).length)
    (hholding : ∀ x, phase = .holding x → whole = true)
    (hover : phase = .finished →
      Concluded b.script os (v.withUtterances (us ++ [u.goOn n whole]))) :
    KeepsTo timings vars os b s (past ++ [v]) ({ b with phase }, s') := by
  refine ⟨past, v.withUtterances (us ++ [u.goOn n whole]), us, u.goOn n whole, ?_, ?_, ?_, ?_⟩
  · refine hit.withUtterances ((mem_last hit).goOn h.utterances hn hwhole) ?_
    rw [Visit.late?, Visit.late?, h.utterances]
    cases us <;> rfl
  · exact ⟨⟨h.sound.script, h.sound.dialogue⟩, h.dialogue, rfl, h.place, h.anchor, h.moved,
      hrevealing, hholding⟩
  · refine ⟨rfl, rfl, ⟨_, _, ?_, hputs⟩, ?_⟩
    · simp only [List.flatMap_append, List.flatMap_singleton, Visit.seen_goOn h.utterances hw,
        List.append_assoc]
    · rw [begun?_of_puts hputs, if_neg (by cases whole <;> split <;> simp [Entry.isSentence])]
      simp only [List.flatMap_append, List.flatMap_singleton, Visit.reveals_goOn h.utterances,
        Option.toList_none, List.append_nil]
  · intro hfinished
    exact hover (by simpa [isFinished] using hfinished)

/-- What happens as a sentence is revealed for some time. -/
theorem keepsTo_reveal (setting : Setting) (hit : Itinerary b.script vars (past ++ [v]))
    (h : b.Stands v us u) {r : Reveal} (hp : b.phase = .revealing r) (dt : Single) (s : Stage) :
    KeepsTo timings vars os b s (past ++ [v]) (b.tick setting dt s) := by
  obtain ⟨hw, taken, hbeats, hrevealed⟩ := h.revealing r hp
  have hactive : b.phase ≠ .finished := by simp [hp]
  have hsize : u.sentence.size = u.revealed + (characters r.pending).length := by
    rw [Sentence.size, Sentence.visible, hbeats, characters_append, List.length_append, hrevealed]
  have hrun := runsOn_run setting hactive (r.elapse dt) s
  unfold tick
  rw [hp]
  dsimp only
  generalize (r.elapse dt).run (handler setting b.script.actions) (b, s) = run at hrun ⊢
  obtain ⟨r' | _ | _, b', s'⟩ := run
  · obtain ⟨rfl, more, hmore, -, -, hputs⟩ := hrun
    have hpending : r.pending = more ++ r'.pending := hmore
    rw [hpending, characters_append, List.length_append] at hsize
    refine keepsTo_goOn hit h hw (characters more).length false (by omega) (fun h => by cases h)
      (by simpa [isFinished] using hputs) ?_ (fun x hx => by cases hx) (fun hx => by cases hx)
    rintro _ ⟨⟩
    refine ⟨rfl, taken ++ more, by rw [hbeats, hpending, List.append_assoc], ?_⟩
    rw [hrevealed, characters_append, List.length_append]
  · obtain ⟨rfl, hputs⟩ := hrun
    have hseen : s.Puts (s'.observe [.revealed b'.channel])
        (.replicate (characters r.pending).length (.reveal b'.channel) ++ [.revealed b'.channel])
        [] := hputs.trans (s'.puts_seen rfl)
    exact keepsTo_goOn hit h hw (characters r.pending).length true (by omega) (fun _ => hsize.symm)
      (by simpa [isFinished] using hseen) (fun _ hr => by cases hr) (fun _ _ => rfl)
      (fun hx => by cases hx)
  · obtain ⟨rfl, more, c, rest, hmore, hc, hputs⟩ := hrun
    have hpending : r.pending = more ++ .tag c :: rest := hmore
    rw [hpending, characters_append, List.length_append] at hsize
    refine keepsTo_goOn hit h hw (characters more).length false (by omega) (fun h => by cases h)
      (by simpa [isFinished] using hputs) (fun _ hr => by cases hr) (fun x hx => by cases hx)
      fun _ => ?_
    have hasked : (u.goOn (characters more).length false).sentence.beats =
        (taken ++ more) ++ .tag c :: rest := by
      rw [Utterance.goOn, hbeats, hpending, List.append_assoc]
    refine .asked List.getLast?_concat hasked ?_ hc
    rw [Utterance.goOn, hrevealed, characters_append, List.length_append]

/-! ## The next sentence -/

/-- The utterance that saying a sentence is. -/
def utteranceOf (setting : Setting) (b : Background) (s : Stage) (raw : String) : Utterance where
  sentence := (Reading.ofText s.vars raw).sentence
  sameSpeaker := b.lastSpeaker.isSome && b.lastSpeaker == b.dialogue.speaker?
  timings := setting.config.timings
  late := b.moved
  revealed := 0
  whole := false

theorem tells_utteranceOf (setting : Setting) (b : Background) (s : Stage) (raw : String) :
    (b.utteranceOf setting s raw).Tells raw :=
  ⟨⟨s.vars, rfl⟩, Nat.zero_le _, fun h => by cases h⟩

/-- The next sentence of the dialogue is said. -/
theorem keepsTo_say (setting : Setting) (hit : Itinerary b.script vars (past ++ [v]))
    (h : b.Stands v us u) (hw : u.whole = true) {raw : String}
    (hraw : b.dialogue.sentences[b.said]? = some raw) (s : Stage) :
    KeepsTo setting.config.timings vars os b s (past ++ [v]) (b.say setting raw s) := by
  have hlate : (b.utteranceOf setting s raw).late = false := h.moved
  have hputs : s.Puts (b.say setting raw s).2
      ((b.utteranceOf setting s raw).seen b.channel v.dialogue.speaker?) [] :=
    h.dialogue ▸ b.puts_say setting raw s
  rw [h.said, h.dialogue] at hraw
  refine ⟨past, v.withUtterances (v.utterances ++ [b.utteranceOf setting s raw]), v.utterances,
    b.utteranceOf setting s raw, ?_, ?_, ?_, fun hx => by cases hx⟩
  · refine hit.withUtterances ((mem_last hit).more h.utterances hw hraw
      (b.tells_utteranceOf setting s raw) hlate) ?_
    rw [Visit.late?, Visit.late?, Visit.withUtterances, h.utterances]
    cases us <;> rfl
  · refine ⟨⟨h.sound.script, h.sound.dialogue⟩, h.dialogue, rfl, congrArg some h.said, h.anchor,
      rfl, ?_, fun x hx => by cases hx⟩
    rintro _ ⟨⟩
    exact ⟨rfl, [], rfl, rfl⟩
  · refine .of_open rfl rfl rfl ?_ hputs ?_
    · simp only [List.flatMap_append, List.flatMap_singleton, Visit.seen_more, List.append_assoc]
    · have hany : ((b.utteranceOf setting s raw).seen b.channel v.dialogue.speaker?).any
          (·.isSentence) = true := rfl
      rw [if_pos hany]
      simp only [List.flatMap_append, List.flatMap_singleton, Visit.reveals_more, List.append_assoc]
      rfl

/-! ## Another dialogue -/

/-- Moving leads to the anchor of the dialogue, if that is another one. -/
theorem visit_fst_eq (first : Bool) (hm : b.moved = false) (s : Stage) (d : Dialogue) :
    (b.visit first s d).1 =
      { b with
        dialogue := d
        sentenceIndex? := none
        anchor := (d.moveFrom? b.anchor).or b.anchor
        moved := (d.moveFrom? b.anchor).isSome && !first } := by
  rw [visit_eq]
  cases d.moveFrom? b.anchor with
  | none => simp [hm]
  | some anchor => simp

/-- The visit that entering a dialogue begins. -/
def visitOf (setting : Setting) (first : Bool) (b : Background) (s : Stage) (d : Dialogue)
    (raw : String) : Visit where
  dialogue := d
  move? := d.moveFrom? b.anchor
  anchor? := (d.moveFrom? b.anchor).or b.anchor
  utterances := [(b.visit first s d).1.utteranceOf setting (b.visit first s d).2 raw]

/-- Whoever enters a dialogue is at the first utterance of a visit. -/
theorem stands_visitOf (setting : Setting) (first : Bool) (hm : b.moved = false) (s : Stage)
    {d : Dialogue} (hs : b.script.Sound) (hd : d ∈ b.script.dialogues) (raw : String) :
    ((b.visit first s d).1.say setting raw (b.visit first s d).2).1.Stands
      (b.visitOf setting first s d raw) []
        ((b.visit first s d).1.utteranceOf setting (b.visit first s d).2 raw) := by
  have hv := b.visit_fst_eq first hm s d
  refine ⟨?_, ?_, rfl, ?_, ?_, rfl, ?_, fun x hx => by cases hx⟩
  · refine ⟨?_, ?_⟩
    · rw [say, hv]
      exact hs
    · rw [say, hv]
      exact hd
  · rw [say, hv]
    rfl
  · rw [say, hv]
    rfl
  · rw [say, hv]
    rfl
  · rintro _ ⟨⟩
    exact ⟨rfl, [], rfl, rfl⟩

/-- What is seen of a visit that begins. -/
theorem puts_visitOf (setting : Setting) (first : Bool) (hm : b.moved = false) (s : Stage)
    (d : Dialogue) (raw : String) :
    s.Puts ((b.visit first s d).1.say setting raw (b.visit first s d).2).2
      ((b.visitOf setting first s d raw).seen b.channel) [] := by
  have hsay := (b.visit first s d).1.puts_say setting raw (b.visit first s d).2
  have hputs := (b.puts_visit first s d).trans hsay
  have hchannel : (b.visit first s d).1.channel = b.channel := by
    rw [b.visit_fst_eq first hm]
    rfl
  have hdialogue : (b.visit first s d).1.dialogue = d := by rw [b.visit_fst_eq first hm]
  rw [hchannel, hdialogue] at hputs
  rw [Visit.seen, visitOf, List.flatMap_singleton]
  simp only [Utterance.seen, utteranceOf, hdialogue]
  exact hputs

theorem late?_visitOf (setting : Setting) (first : Bool) (hm : b.moved = false) (s : Stage)
    (d : Dialogue) (raw : String) :
    (b.visitOf setting first s d raw).late? =
      some ((b.visitOf setting first s d raw).move?.isSome && !first) := by
  rw [Visit.late?, visitOf, List.head?_cons, Option.map_some, utteranceOf, b.visit_fst_eq first hm]

theorem reveals_visitOf (setting : Setting) (first : Bool) (b : Background) (s : Stage)
    (d : Dialogue) (raw : String) :
    (if ((b.visitOf setting first s d raw).seen b.channel).any (·.isSentence) then
      ((b.visit first s d).1.say setting raw (b.visit first s d).2).1.reveal?.map
        (setting.config.timings, ·) else none).toList =
      (b.visitOf setting first s d raw).reveals := by
  rw [if_pos]
  · rfl
  · rw [Visit.seen, visitOf, List.flatMap_singleton, List.any_append]
    exact Bool.or_true _

/-- The dialogue is left for the next one. -/
theorem keepsTo_enter (setting : Setting) (hit : Itinerary b.script vars (past ++ [v]))
    (h : b.Stands v us u) (hcomplete : v.Complete) {id : Int32} {d : Dialogue}
    (hn : v.dialogue.next? = some id) (hd : b.script.dialogue? id = some d) (s : Stage) :
    KeepsTo setting.config.timings vars os b s (past ++ [v]) (b.enter setting false d s) := by
  have hmem : d ∈ b.script.dialogues := (Conversation.mem_of_dialogue? hd).1
  obtain ⟨raw, ho, henter⟩ := enter_eq setting false h.sound.script hmem s
  have hraw : d.sentences[0]? = some raw :=
    Dialogue.outlook_eq_sentence (d := { d with choices := [] }) ho
  have hv := b.visit_fst_eq false h.moved s d
  rw [henter]
  refine ⟨past ++ [v], b.visitOf setting false s d raw, [], _, ?_,
    stands_visitOf setting false h.moved s h.sound.script hmem raw, ?_, fun hx => by cases hx⟩
  · refine hit.concat ⟨hcomplete, ⟨id, hn, hd⟩, ?_, ?_⟩ ?_
    · rw [← h.anchor]
      exact ⟨rfl, rfl⟩
    · rw [late?_visitOf setting false h.moved, Bool.not_false, Bool.and_true]
    · exact .single hraw (tells_utteranceOf ..)
  · refine .of_open ?_ ?_ rfl ?_ (puts_visitOf setting false h.moved s d raw) ?_
    · rw [say, hv]
    · rw [say, hv]
    · rw [List.flatMap_append, List.flatMap_singleton]
    · rw [List.flatMap_append, List.flatMap_singleton]
      exact congrArg _ (reveals_visitOf setting false b s d raw).symm

/-! ## The end -/

/-- It ends where it is. -/
theorem keepsTo_finish (hit : Itinerary b.script vars (past ++ [v])) (h : b.Stands v us u)
    (hactive : b.phase ≠ .finished) (hover : Concluded b.script os v) (s : Stage) :
    KeepsTo timings vars os b s (past ++ [v]) (b.finish s) := by
  have hputs := puts_finish hactive s
  rw [finish_of_active hactive] at hputs ⊢
  refine ⟨past, v, us, u, hit, ?_, ⟨rfl, rfl, ⟨[], _, (List.append_nil _).symm, hputs⟩, ?_⟩,
    fun _ => hover⟩
  · exact ⟨⟨h.sound.script, h.sound.dialogue⟩, h.dialogue, h.utterances, h.place, h.anchor, h.moved,
      (fun _ hr => by cases hr), (fun _ hx => by cases hx)⟩
  · rw [begun?_of_puts hputs]
    exact (List.append_nil _).symm

/-! ## Calls -/

/-- What phase it is in before does not matter. -/
theorem KeepsTo.of_phase {phase : AmbientPhase} {visits : List Visit} {y : Background × Stage}
    (h : KeepsTo timings vars os { b with phase } s visits y) :
    KeepsTo timings vars os b s visits y := by
  obtain ⟨past, v, us, u, hit, hstands, ⟨hid, hscript, hseen, hreveals⟩, hover⟩ := h
  exact ⟨past, v, us, u, hit, hstands, ⟨hid, hscript, hseen, hreveals⟩, hover⟩

/-- After a sentence, it goes on to the next sentence, to the next dialogue, or not at all. -/
theorem advance_cases (setting : Setting) (hs : b.Sound) (s : Stage) :
    (∃ raw, b.dialogue.sentences[b.said]? = some raw ∧ b.advance setting s = b.say setting raw s) ∨
      (b.dialogue.sentences.length ≤ b.said ∧
        ((∃ id d, b.dialogue.next? = some id ∧ b.script.dialogue? id = some d ∧
            b.advance setting s = b.enter setting false d s) ∨
          (b.dialogue.next? = none ∧ b.advance setting s = b.finish s))) := by
  unfold advance stay
  obtain ⟨raw, hraw, ho⟩ | ⟨-, hchoices, -⟩ | ⟨hlen, -, ⟨id, hn, ho⟩ | ⟨hn, ho⟩⟩ :=
    ({ b.dialogue with choices := [] } : Dialogue).outlook_cases b.said
  · have ho' : b.dialogue.ambientOutlook b.said = .sentence raw := ho
    exact .inl ⟨raw, hraw, by simp only [ho']⟩
  · exact absurd rfl hchoices
  · have ho' : b.dialogue.ambientOutlook b.said = .link id := ho
    obtain ⟨d, hd⟩ := hs.exists_of_link ho'
    exact .inr ⟨hlen, .inl ⟨id, d, hn, hd, by simp only [ho', hd]⟩⟩
  · have ho' : b.dialogue.ambientOutlook b.said = .ending := ho
    exact .inr ⟨hlen, .inr ⟨hn, by simp only [ho']⟩⟩

theorem keepsTo_advance (setting : Setting) (hit : Itinerary b.script vars (past ++ [v]))
    (h : b.Stands v us u) {x : Single} (hp : b.phase = .holding x) (s : Stage) :
    KeepsTo setting.config.timings vars os b s (past ++ [v]) (b.advance setting s) := by
  have hw : u.whole = true := h.holding x hp
  have hcomplete : b.dialogue.sentences.length ≤ b.said → v.Complete := fun hlen =>
    (mem_last hit).complete h.utterances hw (by rwa [← h.said, ← h.dialogue])
  obtain ⟨raw, hraw, hsay⟩ | ⟨hlen, ⟨id, d, hn, hd, henter⟩ | ⟨hn, hfinish⟩⟩ :=
    advance_cases setting h.sound s
  · rw [hsay]
    exact keepsTo_say setting hit h hw hraw s
  · rw [henter]
    exact keepsTo_enter setting hit h (hcomplete hlen) (h.dialogue ▸ hn) hd s
  · rw [hfinish]
    exact keepsTo_finish hit h (by simp [hp]) (.exhausted (hcomplete hlen) (h.dialogue ▸ hn)) s

theorem keepsTo_tick (setting : Setting) (hit : Itinerary b.script vars (past ++ [v]))
    (h : b.Stands v us u) (hactive : b.phase ≠ .finished) (dt : Single) (s : Stage) :
    KeepsTo setting.config.timings vars os b s (past ++ [v]) (b.tick setting dt s) := by
  cases hp : b.phase with
  | finished => exact absurd hp hactive
  | revealing r => exact keepsTo_reveal setting hit h hp dt s
  | holding x =>
    have hstands : ({ b with phase := .holding (x - dt) } : Background).Stands v us u :=
      ⟨⟨h.sound.script, h.sound.dialogue⟩, h.dialogue, h.utterances, h.place, h.anchor, h.moved,
        (fun _ hr => by cases hr), fun _ _ => h.holding x hp⟩
    unfold tick
    rw [hp]
    dsimp only
    split
    · exact (keepsTo_advance (b := { b with phase := .holding (x - dt) }) setting hit hstands rfl
        s).of_phase
    · exact ⟨past, v, us, u, hit, hstands,
        .of_open rfl rfl rfl (List.append_nil _).symm (.refl s) (List.append_nil _).symm,
        fun hx => by cases hx⟩

/-- **Each call keeps to an itinerary.** -/
theorem keepsTo_call {o : BackgroundOccasion} (ho : o ∈ os)
    (hit : Itinerary b.script vars (past ++ [v])) (h : b.Stands v us u)
    (hactive : b.phase ≠ .finished) (s : Stage) :
    KeepsTo o.setting.config.timings vars os b s (past ++ [v]) (b.call o.setting s o.call) := by
  cases hcall : o.call with
  | tick dt => exact keepsTo_tick o.setting hit h hactive dt s
  | finish => exact keepsTo_finish hit h hactive (.called ho hcall) s

/-! ## All calls -/

/-- A conversation is on tour: since it was started, it has kept to an itinerary, as was seen. -/
def OnTour (script : Conversation) (vars : Variables) (id : Nat) (s : Stage)
    (os : List BackgroundOccasion) (begun : List (Timings × Reveal)) (x : Background × Stage) :
    Prop :=
  ∃ past v us u, Itinerary script vars (past ++ [v]) ∧ x.1.Stands v us u ∧ x.1.id = id ∧
    x.1.script = script ∧
      seenOf x.2.trace = seenOf s.trace ++ (past ++ [v]).flatMap (Visit.seen (.background id)) ++
        (if x.1.isFinished then [.close (.background id)] else []) ∧
      begun = (past ++ [v]).flatMap Visit.reveals ∧
        (x.1.isFinished = true → Concluded script os v)

/-- **One more call.** -/
theorem OnTour.meet {script : Conversation} {id : Nat} {begun : List (Timings × Reveal)}
    {x : Background × Stage} (h : OnTour script vars id s os begun x) (o : BackgroundOccasion) :
    OnTour script vars id s (os ++ [o])
      (begun ++ (begun? o.setting.config.timings x.2 (meet x o)).toList) (meet x o) := by
  obtain ⟨past, v, us, u, hit, hstands, rfl, rfl, hseen, rfl, hover⟩ := h
  by_cases hactive : x.1.phase = .finished
  · have hfinished : x.1.isFinished = true := by simp [isFinished, hactive]
    have hmeet : Background.meet x o = (x.1, { x.2 with vars := o.vars, requests := o.requests }) :=
      call_of_finished hfinished _ _
    have hnone : begun? o.setting.config.timings x.2 (Background.meet x o) = none :=
      begun?_of_eq (by rw [hmeet])
    rw [hnone, hmeet]
    exact ⟨past, v, us, u, hit, hstands, rfl, rfl, hseen, List.append_nil _,
      fun _ => (hover hfinished).mono (List.subset_append_left ..)⟩
  · have ho : o ∈ os ++ [o] := List.mem_append_right _ (List.mem_singleton_self o)
    obtain ⟨past', v', us', u', hit', hstands', ⟨hid, hscript, ⟨new, es, hnew, hputs⟩, hreveals⟩,
      hover'⟩ := keepsTo_call ho hit hstands hactive
        { x.2 with vars := o.vars, requests := o.requests }
    rw [isFinished_eq_false hactive, if_neg Bool.false_ne_true, List.append_nil] at hseen
    refine ⟨past', v', us', u', hit', hstands', hid, hscript, ?_, ?_, hover'⟩
    · have htrace := hputs.seenOf_trace
      rw [Background.meet, htrace, show seenOf _ = _ from hseen, ← channel, hnew]
      simp only [List.append_assoc]
    · exact hreveals.symm

/-- **Many more calls.** -/
theorem OnTour.meetAll {script : Conversation} {id : Nat} (os' : List BackgroundOccasion) :
    ∀ {os : List BackgroundOccasion} {begun : List (Timings × Reveal)} {x : Background × Stage},
      OnTour script vars id s os begun x →
        OnTour script vars id s (os ++ os') (begun ++ begunAll x os')
          (Background.meetAll x os') := by
  induction os' with
  | nil =>
    intro os begun x h
    rw [List.append_nil, begunAll, List.append_nil]
    exact h
  | cons o os' ih =>
    intro os begun x h
    have hrest := ih (h.meet o)
    rw [List.append_assoc, List.append_assoc] at hrest
    exact hrest

/-- It starts on the first visit of an itinerary. -/
theorem onTour_start {setting : Setting} {id : Nat} {name : String} {script : Conversation}
    (hs : script.Sound) (h : Background.start setting id name script s = (.ok b, s')) :
    OnTour script s.vars id s [] (begun? setting.config.timings s (b, s')).toList (b, s') := by
  obtain ⟨d, hd, henter⟩ := exists_of_start h
  have hmem : d ∈ script.dialogues := Conversation.mem_of_startingPoint hd
  let b₀ : Background := { id, name, script, dialogue := d }
  let s₀ : Stage := (s.startingPoint script).2.report (.backgroundStarted id name)
  obtain ⟨raw, ho, hsay⟩ := enter_eq setting true (b := b₀) hs hmem s₀
  have hraw : d.sentences[0]? = some raw :=
    Dialogue.outlook_eq_sentence (d := { d with choices := [] }) ho
  rw [henter.symm.trans hsay]
  have hv := b₀.visit_fst_eq true rfl s₀ d
  have hputs := (puts_begin id name script s).trans (b₀.puts_visitOf setting true rfl s₀ d raw)
  refine ⟨[], b₀.visitOf setting true s₀ d raw, [], _, ?_,
    b₀.stands_visitOf setting true rfl s₀ hs hmem raw, ?_, ?_, ?_, ?_, fun hx => by cases hx⟩
  · refine .single hd ⟨rfl, rfl⟩ ?_ (.single hraw (tells_utteranceOf ..))
    rw [late?_visitOf setting true rfl, Bool.not_true, Bool.and_false]
  · rw [say, hv]
  · rw [say, hv]
  · rw [hputs.seenOf_trace, List.nil_append, List.nil_append, List.flatMap_singleton]
    exact (List.append_nil _).symm
  · rw [begun?_of_puts hputs]
    exact reveals_visitOf setting true b₀ s₀ d raw

/-! ## Time that is due -/

/-- Whether something comes of some time as it passes: what is next is not held back for longer. -/
def IsDue (b : Background) (dt : Single) : Prop :=
  match b.phase with
  | .revealing r => (r.elapse dt).clock.isWaiting = false
  | .holding remaining => (remaining - dt).isSpent = true
  | .finished => False

/-- How many beats of the sentence are to come. -/
def toCome (b : Background) : Nat := (b.reveal?.map (·.pending.length)).getD 0

/-- There is more to be seen than before, or less of the sentence is to come. -/
def GetsOn (x y : Background × Stage) : Prop :=
  (seenOf x.2.trace).length < (seenOf y.2.trace).length ∨ y.1.toCome < x.1.toCome

theorem GetsOn.of_puts {x y : Background × Stage} {seen : Trace} {es : List Event}
    (h : x.2.Puts y.2 seen es) (hseen : seen ≠ []) : GetsOn x y := by
  left
  rw [h.seenOf_trace, List.length_append]
  exact Nat.lt_add_of_pos_right (List.length_pos_iff.2 hseen)

/-- Going on after a sentence is seen. -/
theorem exists_puts_advance (setting : Setting) (hs : b.Sound) (hactive : b.phase ≠ .finished)
    (s : Stage) : ∃ seen es, s.Puts (b.advance setting s).2 seen es ∧ seen ≠ [] := by
  obtain ⟨raw, -, hsay⟩ | ⟨-, ⟨id, d, -, hd, hlink⟩ | ⟨-, hfinish⟩⟩ := advance_cases setting hs s
  · rw [hsay]
    exact ⟨_, _, b.puts_say setting raw s, List.cons_ne_nil _ _⟩
  · obtain ⟨raw, -, henter⟩ :=
      enter_eq setting false hs.script (Conversation.mem_of_dialogue? hd).1 s
    rw [hlink, henter]
    exact ⟨_, _, (b.puts_visit false s d).trans (puts_say setting raw _ _), by simp⟩
  · rw [hfinish]
    exact ⟨_, _, puts_finish hactive s, List.cons_ne_nil _ _⟩

/-- **Time that is due does not pass for nothing.** -/
theorem getsOn_tick (setting : Setting) (hs : b.Sound) {dt : Single} (h : b.IsDue dt) (s : Stage) :
    GetsOn (b, s) (b.tick setting dt s) := by
  unfold IsDue at h
  unfold tick
  cases hp : b.phase with
  | finished => rw [hp] at h; exact h.elim
  | holding x =>
    rw [hp] at h
    dsimp only at h ⊢
    rw [if_pos h]
    obtain ⟨seen, es, hputs, hseen⟩ := exists_puts_advance
      (b := { b with phase := .holding (x - dt) }) setting ⟨hs.script, hs.dialogue⟩ (by simp) s
    exact .of_puts hputs hseen
  | revealing r =>
    rw [hp] at h
    dsimp only at h ⊢
    have hrun := runsOn_run setting (b := b) (by simp [hp]) (r.elapse dt) s
    generalize (r.elapse dt).run (handler setting b.script.actions) (b, s) = run at hrun ⊢
    obtain ⟨r' | _ | _, b', s'⟩ := run
    · obtain ⟨-, taken, hbs, htaken, -⟩ := hrun
      have hpending : r.pending = taken ++ r'.pending := hbs
      right
      simp only [toCome, reveal?, hp, Option.map_some, Option.getD_some, hpending,
        List.length_append]
      exact Nat.lt_add_of_pos_left (List.length_pos_iff.2 (htaken h))
    · obtain ⟨rfl, hputs⟩ := hrun
      exact .of_puts (hputs.trans (s'.puts_seen rfl)) (by simp)
    · obtain ⟨-, taken, c, rest, -, -, hputs⟩ := hrun
      exact .of_puts hputs (by simp)

/-- **A background conversation keeps to an itinerary.** Its script has passed the check; whatever
it is called for, what is seen of it are the visits of an itinerary, and at last that its text box
is closed, for one of three reasons. The reveals that begin are those of the utterances, with their
delays. Time that is due does not pass for nothing. No part in this is played by choices and final
actions. -/
theorem itinerary_meetAll {setting : Setting} {id : Nat} {name : String} {script : Conversation}
    (hc : script.audit.result = .ok ())
    (h : Background.start setting id name script s = (.ok b, s')) (os : List BackgroundOccasion) :
    let x := Background.meetAll (b, s') os
    (∃ past v, Itinerary script s.vars (past ++ [v]) ∧
      seenOf x.2.trace = seenOf s.trace ++ (past ++ [v]).flatMap (Visit.seen (.background id)) ++
        (if x.1.isFinished then [.close (.background id)] else []) ∧
      (begun? setting.config.timings s (b, s')).toList ++ begunAll (b, s') os =
        (past ++ [v]).flatMap Visit.reveals ∧
      (x.1.isFinished = true → Concluded script os v)) ∧
    (∀ (o : BackgroundOccasion) (dt : Single), o.call = .tick dt → x.1.IsDue dt →
      GetsOn x (Background.meet x o)) ∧
    ∀ c : Conversation, c.bare = script.bare → ∃ b',
      Background.start setting id name c s = (.ok b', s') ∧
        (Background.meetAll (b', s') os).2 = x.2 ∧
        (Background.meetAll (b', s') os).1.isFinished = x.1.isFinished := by
  intro x
  obtain ⟨past, v, us, u, hit, hstands, -, -, hseen, hbegun, hover⟩ :=
    (onTour_start (Conversation.sound_of_audit hc) h).meetAll os
  refine ⟨⟨past, v, hit, hseen, hbegun, hover⟩, fun o dt ho hdue => ?_,
    fun c hbare => meetAll_of_bare_eq setting hbare h os⟩
  rw [Background.meet, ho]
  exact getsOn_tick (b := x.1) o.setting hstands.sound hdue
    { x.2 with vars := o.vars, requests := o.requests }

end Background

/-- A conversation of two dialogues at two places. -/
def Conversation.excursion : Conversation where
  background := true
  dialogues := [
    { id := 0, nextId := 1, sentences := ["Come.", "This way."], startingPoint := true,
      anchor := some "gate" },
    { id := 1, sentences := ["Look."], anchor := some "hill" }]

namespace Background

theorem itinerary_excursion :
    let setting : Setting := ⟨{}, default, fun _ => false⟩
    let script := Conversation.excursion
    let s : Stage := .ofVariables .empty
    let os : List BackgroundOccasion := .replicate 16 ⟨.tick 1, setting, .empty, []⟩
    script.audit.result = .ok () ∧
      ∃ b s', Background.start setting 3 "b" script s = (.ok b, s') ∧
        let x := Background.meetAll (b, s') os
        (∃ past v, Itinerary script s.vars (past ++ [v]) ∧
          seenOf x.2.trace = seenOf s.trace ++ (past ++ [v]).flatMap (Visit.seen (.background 3)) ++
            (if x.1.isFinished then [.close (.background 3)] else []) ∧
          (begun? setting.config.timings s (b, s')).toList ++ begunAll (b, s') os =
            (past ++ [v]).flatMap Visit.reveals ∧
          (x.1.isFinished = true → Concluded script os v)) ∧
        (∀ (o : BackgroundOccasion) (dt : Single), o.call = .tick dt → x.1.IsDue dt →
          GetsOn x (Background.meet x o)) ∧
        ∀ c : Conversation, c.bare = script.bare → ∃ b',
          Background.start setting 3 "b" c s = (.ok b', s') ∧
            (Background.meetAll (b', s') os).2 = x.2 ∧
            (Background.meetAll (b', s') os).1.isFinished = x.1.isFinished := by
  intro setting script s os
  have hc : script.audit.result = .ok () := by decide +kernel
  have hd : (script.startingPoint s.vars).value = some _ := rfl
  have hstart := start_of_startingPoint setting 3 "b" hd
  exact ⟨hc, _, _, hstart, itinerary_meetAll hc hstart os⟩

end Background

end Colloquy
