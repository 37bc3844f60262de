import Colloquy.Markup.Reading
import Colloquy.Reveal
import Mathlib.Data.List.Basic

/-!
# Proofs/Schedule — a sentence is revealed in one order, whatever the clock does

A reveal may be asked for a step, be told that time has passed, be slowed down or be paused, in any
order and with any numbers (`RevealCall`). None of it changes what is handed out, or in which order:
`Sentence.schedule` lists it from the tags and the number of characters alone. The beats of a
sentence are its schedule (`map_ofBeat_beats`), and the steps taken, followed by the beats left
over, are always the beats there were (`filter_calls_append_pending`).
-/

namespace Colloquy

open Markup

/-! ## Calls and their steps -/

/-- Something that is asked of a reveal. -/
inductive RevealCall
  | elapse (dt : Single)
  | setSpeed (factor : Single)
  | pause (seconds : Single)
  | step
deriving DecidableEq

namespace RevealStep

/-- The step that takes a beat. -/
def ofBeat : Beat → RevealStep
  | .character _ => .character
  | .tag c => .tag c

/-- Whether a step hands something out. -/
def takesBeat : RevealStep → Bool
  | character | tag _ => true
  | waiting | finished => false

/-- The command that a step hands out. -/
def command? : RevealStep → Option Command
  | tag c => some c
  | _ => none

@[simp] theorem takesBeat_ofBeat (b : Beat) : (ofBeat b).takesBeat = true := by
  cases b <;> rfl

end RevealStep

open RevealStep

namespace Reveal

/-- Answers a call: the step taken, if one was asked for, and the reveal then. -/
def call (r : Reveal) : RevealCall → List RevealStep × Reveal
  | .elapse dt => ([], r.elapse dt)
  | .setSpeed factor => ([], r.setSpeed factor)
  | .pause seconds => ([], r.pause seconds)
  | .step => ([r.step.1], r.step.2)

/-- Answers calls one after the other. -/
def calls (r : Reveal) : List RevealCall → List RevealStep × Reveal
  | [] => ([], r)
  | c :: cs => ((r.call c).1 ++ ((r.call c).2.calls cs).1, ((r.call c).2.calls cs).2)

/-- What a step does, by what holds the next beat back and what it is. -/
theorem step_cases (r : Reveal) :
    (r.clock.isWaiting = true ∧ r.step = (.waiting, r)) ∨
      (r.clock.isWaiting = false ∧ r.pending = [] ∧ r.step = (.finished, r)) ∨
      ∃ b rest, r.clock.isWaiting = false ∧ r.pending = b :: rest ∧ r.step.1 = ofBeat b ∧
        r.step.2.pending = rest := by
  unfold step
  split
  · exact .inl ⟨‹_›, rfl⟩
  · rename_i hw
    have hw : r.clock.isWaiting = false := by simpa using hw
    split
    · exact .inr (.inl ⟨hw, ‹_›, rfl⟩)
    · exact .inr (.inr ⟨_, _, hw, ‹_›, rfl, rfl⟩)
    · exact .inr (.inr ⟨_, _, hw, ‹_›, rfl, rfl⟩)

theorem filter_call_append_pending (r : Reveal) (c : RevealCall) :
    (r.call c).1.filter takesBeat ++ (r.call c).2.pending.map ofBeat = r.pending.map ofBeat := by
  cases c with
  | step =>
    rw [call]
    obtain ⟨-, h⟩ | ⟨-, -, h⟩ | ⟨b, rest, -, hp, hs, hr⟩ := r.step_cases
    · simp [h, takesBeat]
    · simp [h, takesBeat]
    · simp [hs, hr, hp]
  | _ => rfl

/-- **Nothing is lost and nothing comes twice**: what has been handed out, followed by the beats
left over, is what there was to hand out. -/
theorem filter_calls_append_pending (cs : List RevealCall) :
    ∀ r : Reveal,
      (r.calls cs).1.filter takesBeat ++ (r.calls cs).2.pending.map ofBeat =
        r.pending.map ofBeat := by
  induction cs with
  | nil => intro r; rfl
  | cons c cs ih =>
    intro r
    rw [calls, List.filter_append, List.append_assoc, ih, filter_call_append_pending]

/-- The end is told only when everything has been handed out. -/
theorem filter_eq_of_finished {after : List RevealStep} (cs : List RevealCall) :
    ∀ {r : Reveal} {before : List RevealStep}, (r.calls cs).1 = before ++ .finished :: after →
      before.filter takesBeat = r.pending.map ofBeat := by
  induction cs with
  | nil =>
    intro r before h
    simp [calls] at h
  | cons c cs ih =>
    intro r before h
    cases c with
    | step =>
      have hc := r.filter_call_append_pending .step
      rw [calls, call, List.singleton_append] at h
      cases before with
      | nil =>
        obtain ⟨-, hs⟩ | ⟨-, hp, -⟩ | ⟨b, rest, -, -, hs, -⟩ := r.step_cases
        · simp [hs] at h
        · simp [hp]
        · cases b <;> simp [hs, ofBeat] at h
      | cons s before =>
        obtain ⟨rfl, hrest⟩ := List.cons.inj h
        have hb := ih hrest
        rw [← hc, call, ← hb, ← List.filter_append, List.singleton_append]
    | elapse dt => exact ih (r := r.elapse dt) h
    | setSpeed factor => exact ih (r := r.setSpeed factor) h
    | pause seconds => exact ih (r := r.pause seconds) h

/-- What the next step hands out: the beat that is next, unless the clock holds it back. -/
theorem step_eq (r : Reveal) :
    r.step.1 =
      if r.clock.isWaiting then .waiting else ((r.pending.map ofBeat)[0]?).getD .finished := by
  obtain ⟨hw, h⟩ | ⟨hw, hp, h⟩ | ⟨b, rest, hw, hp, hs, -⟩ := r.step_cases
  · simp [hw, h]
  · simp [hw, hp, h]
  · simp [hw, hp, hs]

end Reveal

/-! ## The schedule of a sentence -/

namespace Markup

/-- The order in which a sentence with some tags and so many characters is revealed: for each index
the tags that stand there, and the character there, if there is one. -/
def scheduleFrom (n : Nat) (tags : List Tag) (size : Nat) : List RevealStep :=
  (List.range' n (size + 1)).flatMap fun i =>
    (tags.filter (·.index = i)).map (.tag ·.command) ++ if i < n + size then [.character] else []

/-- The order in which a sentence is revealed. -/
def Sentence.schedule (s : Sentence) : List RevealStep := scheduleFrom 0 s.tags s.size

/-- At an index that a character stands at, the tags there come first. -/
theorem scheduleFrom_succ (n : Nat) (tags : List Tag) (size : Nat) :
    scheduleFrom n tags (size + 1) =
      (tags.filter (·.index = n)).map (.tag ·.command) ++
        .character :: scheduleFrom (n + 1) tags size := by
  have hi : ∀ i, i < n + (size + 1) ↔ i < n + 1 + size := fun i => by omega
  rw [scheduleFrom, List.range'_succ, List.flatMap_cons, if_pos (by omega), List.append_assoc,
    List.singleton_append]
  simp only [scheduleFrom, hi]

/-- A tag at the first index comes before anything else. -/
theorem scheduleFrom_tag (n : Nat) (c : Command) (tags : List Tag) (size : Nat) :
    scheduleFrom n (⟨n, c⟩ :: tags) size = .tag c :: scheduleFrom n tags size := by
  have hlater : ∀ i ∈ List.range' (n + 1) size,
      ((⟨n, c⟩ :: tags).filter fun t : Tag => t.index = i) =
        tags.filter fun t => t.index = i := by
    intro i hi
    have := (List.mem_range'_1.1 hi).1
    exact List.filter_cons_of_neg (by simp only [decide_eq_true_eq]; omega)
  rw [scheduleFrom, scheduleFrom, List.range'_succ, List.flatMap_cons, List.flatMap_cons,
    List.filter_cons_of_pos (by simp), List.map_cons, List.cons_append, List.cons_append]
  refine congrArg (RevealStep.tag c :: _ ++ ·) (List.flatMap_congr fun i hi => ?_)
  rw [hlater i hi]

/-- No tag stands before the index that counting starts from. -/
theorem filter_index_tagsFrom_succ (n : Nat) (bs : List Beat) :
    (tagsFrom (n + 1) bs).filter (·.index = n) = [] := by
  refine List.filter_eq_nil_iff.2 fun t ht => ?_
  have := (index_of_mem_tagsFrom ht).1
  simp only [decide_eq_true_eq]
  omega

/-- Beats come in the order of their schedule, from whatever index it starts. -/
theorem map_ofBeat_eq_scheduleFrom (bs : List Beat) :
    ∀ n : Nat, bs.map ofBeat = scheduleFrom n (tagsFrom n bs) (characters bs).length := by
  induction bs with
  | nil => intro n; simp [scheduleFrom]
  | cons b bs ih =>
    intro n
    cases b with
    | character c =>
      rw [List.map_cons, characters_character, tagsFrom_character, List.length_cons,
        scheduleFrom_succ, filter_index_tagsFrom_succ, ← ih (n + 1)]
      rfl
    | tag c =>
      rw [List.map_cons, characters_tag, tagsFrom_tag, scheduleFrom_tag, ← ih n]
      rfl

/-- **The beats of a sentence are its schedule.** -/
theorem map_ofBeat_beats (s : Sentence) : s.beats.map ofBeat = s.schedule :=
  map_ofBeat_eq_scheduleFrom s.beats 0

/-- A command comes after the commands before it, at the index that its tag says. -/
theorem tagsFrom_getElem?_of_split (c : Command) (after : List RevealStep) (bs : List Beat) :
    ∀ {n : Nat} {before : List RevealStep}, bs.map ofBeat = before ++ .tag c :: after →
      (tagsFrom n bs)[(before.filterMap command?).length]? =
        some ⟨n + before.count .character, c⟩ := by
  induction bs with
  | nil =>
    intro n before h
    simp at h
  | cons b bs ih =>
    intro n before h
    rw [List.map_cons] at h
    cases before with
    | nil =>
      obtain ⟨hb, -⟩ := List.cons.inj h
      cases b with
      | character d => cases hb
      | tag d =>
        cases hb
        rfl
    | cons s before =>
      obtain ⟨rfl, hrest⟩ := List.cons.inj h
      cases b with
      | character d =>
        rw [tagsFrom_character, ofBeat, List.filterMap_cons_none rfl, ih hrest,
          List.count_cons_self, Nat.add_right_comm, Nat.add_assoc]
      | tag d =>
        have hf : (RevealStep.tag d :: before).filterMap command? =
            d :: before.filterMap command? := rfl
        rw [tagsFrom_tag, ofBeat, hf, List.length_cons, List.getElem?_cons_succ, ih hrest,
          List.count_cons_of_ne (by simp)]

theorem length_tagsFrom_add (bs : List Beat) :
    ∀ n : Nat, (characters bs).length + (tagsFrom n bs).length = bs.length := by
  induction bs with
  | nil => intro n; rfl
  | cons b bs ih =>
    intro n
    cases b with
    | character c =>
      have := ih (n + 1)
      simp only [characters_character, tagsFrom_character, List.length_cons]
      omega
    | tag c =>
      have := ih n
      simp only [characters_tag, tagsFrom_tag, List.length_cons]
      omega

theorem count_character_map_ofBeat (bs : List Beat) :
    (bs.map ofBeat).count .character = (characters bs).length := by
  induction bs with
  | nil => rfl
  | cons b bs ih => cases b <;> simp [ofBeat, ih]

theorem filterMap_command?_map_ofBeat (bs : List Beat) :
    ∀ n : Nat, (bs.map ofBeat).filterMap command? = (tagsFrom n bs).map (·.command) := by
  induction bs with
  | nil => intro n; rfl
  | cons b bs ih =>
    intro n
    cases b with
    | character c => exact ih (n + 1)
    | tag c => exact congrArg (c :: ·) (ih n)

theorem Sentence.count_character_schedule (s : Sentence) :
    s.schedule.count .character = s.size := by
  rw [← map_ofBeat_beats, count_character_map_ofBeat, Sentence.size, Sentence.visible]

theorem Sentence.filterMap_command?_schedule (s : Sentence) :
    s.schedule.filterMap command? = s.tags.map (·.command) := by
  rw [← map_ofBeat_beats, filterMap_command?_map_ofBeat s.beats 0, Sentence.tags]

theorem Sentence.length_schedule (s : Sentence) :
    s.schedule.length = s.size + s.tags.length := by
  rw [← map_ofBeat_beats, List.length_map, Sentence.size, Sentence.visible, Sentence.tags,
    length_tagsFrom_add]

end Markup

/-! ## Any calls on the reveal of any sentence -/

/-- What is known of calls on the reveal of a sentence: of the steps that they gave, and of the
reveal then. -/
structure HandsOut (s : Sentence) (run : List RevealStep × Reveal) : Prop where
  /-- What is handed out keeps to the schedule. -/
  prefix_schedule : run.1.filter takesBeat <+: s.schedule
  /-- A command is that of the next tag, and so many characters came before it as its index says. -/
  tag_at : ∀ before c after, run.1 = before ++ .tag c :: after →
    s.tags[(before.filterMap command?).length]? = some ⟨before.count .character, c⟩
  /-- The end is told when all has been handed out: every tag once and every character. -/
  of_finished : ∀ before after, run.1 = before ++ .finished :: after →
    before.filter takesBeat = s.schedule ∧ before.filterMap command? = s.tags.map (·.command) ∧
      before.count .character = s.size
  /-- No more is handed out than there is. -/
  length_le : (run.1.filter takesBeat).length ≤ s.size + s.tags.length
  count_character_le : run.1.count .character ≤ s.size
  /-- The next step goes on in the schedule, as soon as the clock allows. -/
  next_step : run.2.step.1 =
    if run.2.clock.isWaiting then .waiting
    else (s.schedule[(run.1.filter takesBeat).length]?).getD .finished

theorem count_character_filter_takesBeat (steps : List RevealStep) :
    (steps.filter takesBeat).count .character = steps.count .character :=
  List.count_filter rfl

theorem filterMap_command?_filter_takesBeat (steps : List RevealStep) :
    (steps.filter takesBeat).filterMap command? = steps.filterMap command? := by
  rw [List.filterMap_filter]
  refine List.filterMap_congr fun s _ => ?_
  cases s <;> rfl

/-- **A sentence is revealed in the order of its schedule**, whatever the clock is told and however
often it is asked for a step. -/
theorem handsOut_calls (vars : Variables) (raw : String) (charDelay initialDelay : Single)
    (cs : List RevealCall) :
    let s := (Reading.ofText vars raw).sentence
    HandsOut s ((Reveal.ofSentence s charDelay initialDelay).calls cs) := by
  intro s
  generalize hr : Reveal.ofSentence s charDelay initialDelay = r
  have hp : r.pending = s.beats := by rw [← hr]; rfl
  have hrun := r.filter_calls_append_pending cs
  rw [hp, map_ofBeat_beats] at hrun
  have hpre : (r.calls cs).1.filter takesBeat <+: s.schedule := ⟨_, hrun⟩
  constructor
  case prefix_schedule => exact hpre
  case tag_at =>
    intro before c after h
    rw [h, List.filter_append, List.filter_cons_of_pos rfl] at hpre
    obtain ⟨later, hlater⟩ := hpre
    rw [List.append_assoc, List.cons_append, ← map_ofBeat_beats] at hlater
    have := tagsFrom_getElem?_of_split c _ s.beats (n := 0) hlater.symm
    rwa [count_character_filter_takesBeat, filterMap_command?_filter_takesBeat, Nat.zero_add]
      at this
  case of_finished =>
    intro before after h
    have hb := Reveal.filter_eq_of_finished cs h
    rw [hp, map_ofBeat_beats] at hb
    refine ⟨hb, ?_, ?_⟩
    · rw [← filterMap_command?_filter_takesBeat, hb, Sentence.filterMap_command?_schedule]
    · rw [← count_character_filter_takesBeat, hb, Sentence.count_character_schedule]
  case length_le => exact Nat.le_trans hpre.length_le (Nat.le_of_eq s.length_schedule)
  case count_character_le =>
    rw [← count_character_filter_takesBeat, ← s.count_character_schedule]
    exact hpre.sublist.count_le _
  case next_step =>
    rw [Reveal.step_eq, ← hrun, List.getElem?_append_right (Nat.le_refl _), Nat.sub_self]

end Colloquy
