import Colloquy.Conversation
import Colloquy.Proofs.Schedule
import Mathlib.Data.List.Induction

/-!
# Proofs/Playback/Moment — what performers do, one thing at a time, and in which order

A `Moment` is one thing that the performer of a text box does: it begins, shows a sentence, reveals
a letter of it, carries out a tag of it, and so on until it ends. A `Score` is what may come next:
`Score.Next` allows no letter or tag but the next one of the sentence shown, no other sentence
before that one is whole, and nothing but a new beginning after an end.

**The main statement** is `Score.wellPerformed_of_follows`: moments that follow the score are well
formed, as `WellPerformed` says it of the moments alone.
-/

namespace Colloquy

open Markup RevealStep

/-- Why a conversation ends. -/
inductive Ending
  /-- Nothing comes after its last dialogue. -/
  | exhausted
  /-- Nothing comes after the choice that was made. -/
  | afterChoice
  /-- A tag or an action of its own asked for it. -/
  | asked
  /-- A request that others left was carried out. -/
  | routed
  /-- The game asked for it. -/
  | stopped
deriving DecidableEq, Repr

/-- One thing that a performer does. -/
inductive Moment
  /-- A conversation begins with a dialogue of its script. -/
  | begun (name : String) (script : Conversation) (d : Dialogue)
  /-- Another dialogue is entered. -/
  | entered (d : Dialogue)
  /-- The sentence at a place of a dialogue is laid out. -/
  | shown (d : Dialogue) (place : Nat) (sentence : Sentence)
  | letter
  /-- A command of the sentence takes effect. -/
  | tag (c : Command)
  /-- The sentence has been revealed. -/
  | whole
  /-- The choices of a dialogue are offered. -/
  | offered (d : Dialogue)
  | chosen (index : Nat) (c : Choice)
  /-- There is nothing after a dialogue but the actions that it ends with. -/
  | concluded (d : Dialogue)
  /-- An action of a choice, or of the end of a dialogue, is fired. -/
  | fired (action : String)
  | ended (name : String) (why : Ending)
deriving DecidableEq

namespace Moment

/-- The step of a reveal that a moment is. -/
def step? : Moment → Option RevealStep
  | letter => some .character
  | tag c => some (.tag c)
  | _ => none

/-- The command that a moment carries out. -/
def command? : Moment → Option Command
  | tag c => some c
  | _ => none

/-- Whether a moment belongs to the sentence that is being revealed. -/
def reveals : Moment → Bool
  | letter | tag _ | whole => true
  | _ => false

/-- Whether what was shown before is cleared away: for a sentence, for choices, or for good. -/
def clears : Moment → Bool
  | shown .. | offered _ | ended .. => true
  | _ => false

/-- Whether a conversation begins or ends. -/
def bounds : Moment → Bool
  | begun .. | ended .. => true
  | _ => false

end Moment

/-- The commands that are carried out in some moments. -/
def commandsOf (ms : List Moment) : List Command := ms.filterMap Moment.command?

/-- The steps of reveals among some moments. -/
def stepsOf (ms : List Moment) : List RevealStep := ms.filterMap Moment.step?

theorem count_character_stepsOf (ms : List Moment) :
    (stepsOf ms).count .character = ms.count .letter := by
  induction ms with
  | nil => rfl
  | cons m ms ih =>
    cases m with
    | letter =>
      have hs : stepsOf (.letter :: ms) = .character :: stepsOf ms := rfl
      rw [hs, List.count_cons_self, List.count_cons_self, ih]
    | tag c =>
      have hs : stepsOf (.tag c :: ms) = .tag c :: stepsOf ms := rfl
      rw [hs, List.count_cons_of_ne (by simp), List.count_cons_of_ne (by simp), ih]
    | _ => exact ih.trans (List.count_cons_of_ne (by simp)).symm

theorem filterMap_command?_stepsOf (ms : List Moment) :
    (stepsOf ms).filterMap RevealStep.command? = commandsOf ms := by
  rw [stepsOf, List.filterMap_filterMap]
  refine List.filterMap_congr fun m _ => ?_
  cases m <;> rfl

/-! ## The score -/

/-- What a text box stands ready for. -/
inductive Score
  /-- Nothing is performed. -/
  | silent
  /-- A conversation of a name goes on, and no sentence of it is being revealed. -/
  | between (name : String)
  /-- A sentence is being revealed, and some beats of it are to come. -/
  | revealing (name : String) (pending : List Beat)
deriving DecidableEq

namespace Score

/-- The name of the conversation that is performed. -/
def name? : Score → Option String
  | silent => none
  | between name | revealing name _ => some name

/-- What may come next, and the score then. -/
inductive Next : Score → Moment → Score → Prop
  | begun {name : String} {script : Conversation} {d : Dialogue} :
    Next silent (.begun name script d) (between name)
  | shown {name : String} {d : Dialogue} {place : Nat} {s : Sentence} :
    Next (between name) (.shown d place s) (revealing name s.beats)
  | letter {name : String} {c : Char} {bs : List Beat} :
    Next (revealing name (.character c :: bs)) .letter (revealing name bs)
  | tag {name : String} {c : Command} {bs : List Beat} :
    Next (revealing name (.tag c :: bs)) (.tag c) (revealing name bs)
  | whole {name : String} : Next (revealing name []) .whole (between name)
  | entered {name : String} {d : Dialogue} : Next (between name) (.entered d) (between name)
  | offered {name : String} {d : Dialogue} : Next (between name) (.offered d) (between name)
  | chosen {name : String} {index : Nat} {c : Choice} :
    Next (between name) (.chosen index c) (between name)
  | concluded {name : String} {d : Dialogue} : Next (between name) (.concluded d) (between name)
  | fired {name action : String} : Next (between name) (.fired action) (between name)
  | ended {t : Score} {name : String} {why : Ending} (h : t.name? = some name) :
    Next t (.ended name why) silent

/-- Moments that come one after the other as the score allows. -/
inductive Follows : Score → List Moment → Score → Prop
  | nil {t : Score} : Follows t [] t
  | cons {t u v : Score} {m : Moment} {ms : List Moment} :
    Next t m u → Follows u ms v → Follows t (m :: ms) v

/-- Moments in two parts pass through a score between them. -/
theorem Follows.split {t v : Score} {ms ns : List Moment} (h : Follows t (ms ++ ns) v) :
    ∃ u, Follows t ms u ∧ Follows u ns v := by
  induction ms generalizing t with
  | nil => exact ⟨t, .nil, h⟩
  | cons m ms ih =>
    cases h with
    | cons hm h =>
      obtain ⟨u, hms, hns⟩ := ih h
      exact ⟨u, .cons hm hms, hns⟩

theorem Follows.split_cons {t v : Score} {ms ns : List Moment} {m : Moment}
    (h : Follows t (ms ++ m :: ns) v) :
    ∃ u w, Follows t ms u ∧ Next u m w ∧ Follows w ns v := by
  obtain ⟨u, hms, h⟩ := h.split
  cases h with
  | cons hm hns => exact ⟨u, _, hms, hm, hns⟩

/-! ## Within one sentence -/

/-- Between sentences there is nothing to reveal. -/
theorem Follows.of_between {name : String} {ms : List Moment} {t : Score}
    (h : Follows (between name) ms t) (hms : ∀ m ∈ ms, m.clears = false) :
    t = between name ∧ stepsOf ms = [] ∧ .whole ∉ ms := by
  induction ms with
  | nil => cases h; exact ⟨rfl, rfl, List.not_mem_nil⟩
  | cons m ms ih =>
    obtain ⟨hm, hlater⟩ := List.forall_mem_cons.1 hms
    cases h with
    | cons hnext h =>
      cases hnext with
      | shown | offered | ended => cases hm
      | entered | chosen | concluded | fired =>
        obtain ⟨ht, hsteps, hwhole⟩ := ih h hlater
        exact ⟨ht, hsteps, by simpa using hwhole⟩

/-- **While a sentence is revealed**, its beats come in order, and it is whole when none is left. -/
theorem Follows.of_revealing {name : String} {ms : List Moment} {t : Score} :
    ∀ {bs : List Beat}, Follows (revealing name bs) ms t → (∀ m ∈ ms, m.clears = false) →
      (∃ rest, t = revealing name rest ∧ stepsOf ms ++ rest.map ofBeat = bs.map ofBeat ∧
          .whole ∉ ms) ∨
        (t = between name ∧ stepsOf ms = bs.map ofBeat ∧ ms.count .whole = 1) := by
  induction ms with
  | nil =>
    intro bs h _
    cases h
    exact .inl ⟨bs, rfl, rfl, List.not_mem_nil⟩
  | cons m ms ih =>
    intro bs h hms
    obtain ⟨hm, hlater⟩ := List.forall_mem_cons.1 hms
    cases h with
    | cons hnext h =>
      cases hnext with
      | letter =>
        rcases ih h hlater with ⟨rest, ht, hs, hw⟩ | ⟨ht, hs, hw⟩
        · exact .inl ⟨rest, ht, congrArg (RevealStep.character :: ·) hs, by simpa using hw⟩
        · exact .inr ⟨ht, congrArg (RevealStep.character :: ·) hs, by simpa using hw⟩
      | @tag _ c _ =>
        rcases ih h hlater with ⟨rest, ht, hs, hw⟩ | ⟨ht, hs, hw⟩
        · exact .inl ⟨rest, ht, congrArg (RevealStep.tag c :: ·) hs, by simpa using hw⟩
        · exact .inr ⟨ht, congrArg (RevealStep.tag c :: ·) hs, by simpa using hw⟩
      | whole =>
        obtain ⟨ht, hs, hw⟩ := h.of_between hlater
        exact .inr ⟨ht, hs, by rw [List.count_cons_self, List.count_eq_zero.2 hw]⟩
      | ended => cases hm

/-! ## Looking back -/

/-- What is being revealed was shown, and nothing else has been since. -/
theorem Follows.exists_shown {name : String} {bs : List Beat} {ms : List Moment}
    (h : Follows silent ms (revealing name bs)) :
    ∃ before d place s after, ms = before ++ .shown d place s :: after ∧
      (∀ m ∈ after, m.clears = false) ∧ .whole ∉ after := by
  induction ms using List.reverseRecOn generalizing bs with
  | nil => cases h
  | append_singleton ms m ih =>
    obtain ⟨u, w, hms, hm, hw⟩ := h.split_cons
    cases hw
    have extend : ∀ {cs : List Beat}, u = revealing name cs → m.clears = false → m ≠ .whole →
        ∃ before d place s after, ms ++ [m] = before ++ .shown d place s :: after ∧
          (∀ m ∈ after, m.clears = false) ∧ .whole ∉ after := by
      intro cs hu hclear hwhole
      obtain ⟨before, d, place, s, after, rfl, hafter, hnone⟩ := ih (hu ▸ hms)
      refine ⟨before, d, place, s, after ++ [m], by simp, fun n hn => ?_, fun hn => ?_⟩
      · rcases List.mem_append.1 hn with hn | hn
        · exact hafter n hn
        · exact (List.mem_singleton.1 hn) ▸ hclear
      · rcases List.mem_append.1 hn with hn | hn
        · exact hnone hn
        · exact hwhole (List.mem_singleton.1 hn).symm
    cases hm with
    | @shown _ d place s => exact ⟨ms, d, place, s, [], rfl, by simp, List.not_mem_nil⟩
    | letter => exact extend rfl rfl (by simp)
    | tag => exact extend rfl rfl (by simp)

/-- What is performed was begun, and has not ended since. -/
theorem Follows.exists_begun {t : Score} {name : String} {ms : List Moment}
    (h : Follows silent ms t) (ht : t.name? = some name) :
    ∃ before script d after, ms = before ++ .begun name script d :: after ∧
      ∀ m ∈ after, m.bounds = false := by
  induction ms using List.reverseRecOn generalizing t with
  | nil => cases h; cases ht
  | append_singleton ms m ih =>
    obtain ⟨u, w, hms, hm, hw⟩ := h.split_cons
    cases hw
    have extend : u.name? = some name → m.bounds = false →
        ∃ before script d after, ms ++ [m] = before ++ .begun name script d :: after ∧
          ∀ m ∈ after, m.bounds = false := by
      intro hu hb
      obtain ⟨before, script, d, after, rfl, hafter⟩ := ih hms hu
      refine ⟨before, script, d, after ++ [m], by simp, fun n hn => ?_⟩
      rcases List.mem_append.1 hn with hn | hn
      · exact hafter n hn
      · exact (List.mem_singleton.1 hn) ▸ hb
    cases hm with
    | @begun _ script d => cases ht; exact ⟨ms, script, d, [], rfl, by simp⟩
    | ended => cases ht
    | _ => exact extend ht rfl

/-- A silence follows on an end, or nothing has begun yet. -/
theorem Follows.eq_nil_or_exists_ended {ms : List Moment} (h : Follows silent ms silent) :
    ms = [] ∨ ∃ before name why, ms = before ++ [.ended name why] := by
  obtain rfl | ⟨before, m, rfl⟩ := ms.eq_nil_or_concat
  · exact .inl rfl
  · rw [List.concat_eq_append] at h ⊢
    obtain ⟨u, w, -, hm, hw⟩ := h.split_cons
    cases hw
    cases hm
    exact .inr ⟨before, _, _, rfl⟩

end Score

/-! ## Moments that are well formed -/

/-- What is true of the moments on one text box. -/
structure WellPerformed (ms : List Moment) : Prop where
  /-- No more letters than a sentence has come after it. -/
  letters_le : ∀ a d i s b c, ms = a ++ .shown d i s :: (b ++ c) → (∀ m ∈ b, m.clears = false) →
    b.count .letter ≤ s.size
  /-- A sentence is whole once, when each letter and each tag of it has come. -/
  of_whole : ∀ a d i s b c, ms = a ++ .shown d i s :: (b ++ .whole :: c) →
    (∀ m ∈ b, m.clears = false) →
      .whole ∉ b ∧ b.count .letter = s.size ∧ commandsOf b = s.tags.map (·.command)
  /-- Whatever clears a sentence away, but for an end, comes after the sentence is whole. -/
  whole_of_clears : ∀ a d i s b m c, ms = a ++ .shown d i s :: (b ++ m :: c) →
    (∀ m ∈ b, m.clears = false) → m.clears = true → m.bounds = false → .whole ∈ b
  /-- A command is that of the next tag, and so many letters came before it as its index says. -/
  tag_at : ∀ a d i s b k c, ms = a ++ .shown d i s :: (b ++ .tag k :: c) →
    (∀ m ∈ b, m.clears = false) →
      s.tags[(commandsOf b).length]? = some ⟨b.count .letter, k⟩
  /-- Letters and tags are those of a sentence that is not whole yet. -/
  of_reveals : ∀ b m c, ms = b ++ m :: c → m.reveals = true →
    ∃ a d i s b', b = a ++ .shown d i s :: b' ∧ (∀ m ∈ b', m.clears = false) ∧ .whole ∉ b'
  /-- Nothing but a beginning comes first, or after an end. -/
  begins : ∀ m c, ms = m :: c → ∃ name script d, m = .begun name script d
  begins_again : ∀ a name why m c, ms = a ++ .ended name why :: m :: c →
    ∃ name script d, m = .begun name script d
  /-- A conversation begins when none goes on. -/
  before_begun : ∀ a name script d c, ms = a ++ .begun name script d :: c →
    a = [] ∨ ∃ b name why, a = b ++ [.ended name why]
  /-- The conversation that ends is the one that began last. -/
  before_ended : ∀ b name why c, ms = b ++ .ended name why :: c →
    ∃ a script d b', b = a ++ .begun name script d :: b' ∧ ∀ m ∈ b', m.bounds = false

namespace Score

/-- What is known of the moments after a sentence, as long as it is not cleared away. -/
theorem Follows.after_shown {t u : Score} {a b c : List Moment} {d : Dialogue} {i : Nat}
    {s : Sentence} (h : Follows t (a ++ .shown d i s :: (b ++ c)) u)
    (hb : ∀ m ∈ b, m.clears = false) :
    ∃ name v, Follows v c u ∧
      ((∃ rest, v = revealing name rest ∧ stepsOf b ++ rest.map ofBeat = s.schedule ∧
          .whole ∉ b) ∨
        (v = between name ∧ stepsOf b = s.schedule ∧ b.count .whole = 1)) := by
  obtain ⟨u, w, -, hshown, h⟩ := h.split_cons
  cases hshown with
  | @shown name =>
    obtain ⟨v, hv, hc⟩ := h.split
    refine ⟨name, v, hc, ?_⟩
    rw [← map_ofBeat_beats]
    exact hv.of_revealing hb

/-- Only a beginning follows on a silence. -/
theorem Next.of_silent {m : Moment} {t : Score} (h : Next silent m t) :
    ∃ name script d, m = .begun name script d := by
  cases h with
  | begun => exact ⟨_, _, _, rfl⟩
  | ended h => cases h

/-- **Moments that follow the score are well formed.** -/
theorem wellPerformed_of_follows {ms : List Moment} {t : Score} (h : Follows silent ms t) :
    WellPerformed ms := by
  constructor
  case letters_le =>
    rintro a d i s b c rfl hb
    obtain ⟨name, v, -, ⟨rest, -, hs, -⟩ | ⟨-, hs, -⟩⟩ := h.after_shown hb
    · rw [← count_character_stepsOf, ← s.count_character_schedule, ← hs, List.count_append]
      exact Nat.le_add_right ..
    · have hcount : b.count .letter = s.size := by
        rw [← count_character_stepsOf, hs, s.count_character_schedule]
      exact Nat.le_of_eq hcount
  case of_whole =>
    rintro a d i s b c rfl hb
    obtain ⟨name, v, hc, ⟨rest, rfl, hs, hw⟩ | ⟨rfl, -, -⟩⟩ := h.after_shown hb
    · cases hc with
      | cons hnext _ =>
        cases hnext
        rw [List.map_nil, List.append_nil] at hs
        rw [← count_character_stepsOf, ← filterMap_command?_stepsOf, hs]
        exact ⟨hw, s.count_character_schedule, s.filterMap_command?_schedule⟩
    · cases hc with
      | cons hnext _ => cases hnext
  case whole_of_clears =>
    rintro a d i s b m c rfl hb hm hbound
    obtain ⟨name, v, hc, ⟨rest, rfl, -, -⟩ | ⟨-, -, hw⟩⟩ := h.after_shown hb
    · cases hc with
      | cons hnext _ => cases hnext <;> simp [Moment.clears, Moment.bounds] at hm hbound
    · exact List.count_pos_iff.1 (hw ▸ Nat.one_pos)
  case tag_at =>
    rintro a d i s b k c rfl hb
    obtain ⟨name, v, hc, ⟨rest, rfl, hs, -⟩ | ⟨rfl, -, -⟩⟩ := h.after_shown hb
    · cases hc with
      | cons hnext _ =>
        cases hnext with
        | tag =>
          have := tagsFrom_getElem?_of_split k _ s.beats (n := 0)
            ((map_ofBeat_beats s).trans hs.symm)
          rwa [filterMap_command?_stepsOf, count_character_stepsOf, Nat.zero_add] at this
    · cases hc with
      | cons hnext _ => cases hnext
  case of_reveals =>
    rintro b m c rfl hm
    obtain ⟨u, w, hu, hnext, -⟩ := h.split_cons
    cases hnext with
    | letter | tag | whole => exact hu.exists_shown
    | _ => cases hm
  case begins =>
    rintro m c rfl
    cases h with
    | cons hnext _ => exact hnext.of_silent
  case begins_again =>
    rintro a name why m c rfl
    obtain ⟨u, w, -, hnext, h⟩ := h.split_cons
    cases hnext
    cases h with
    | cons hnext _ => exact hnext.of_silent
  case before_begun =>
    rintro a name script d c rfl
    obtain ⟨u, w, hu, hnext, -⟩ := h.split_cons
    cases hnext
    exact hu.eq_nil_or_exists_ended
  case before_ended =>
    rintro b name why c rfl
    obtain ⟨u, w, hu, hnext, -⟩ := h.split_cons
    cases hnext with
    | ended hname => exact hu.exists_begun hname

end Score

end Colloquy
