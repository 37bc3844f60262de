import Colloquy.Proofs.Playback.Standing

/-!
# Proofs/Playback/Course — the moments of a walk through scripts

What the moments of the main performance are like as it walks through its scripts, `WellWalked` says
of the moments alone.

**The main statement** is about all runs: whatever conversations are stored and whatever operations
a game asks for, the main performance walks through its scripts, and its moments are those that the
scripts say. It follows from where a walk stands at each moment (`Place.Strides.wellWalked`).
-/

namespace Colloquy

open Markup

open Place

/-! ## Moments that walk through scripts -/

/-- Why a conversation may end that is in a dialogue, for the moments since its last sentence. -/
inductive Finale (script : Conversation) (d : Dialogue) (since : List Moment) : Ending → Prop
  /-- The dialogue leads nowhere, and its actions were all fired. -/
  | exhausted (b : List Moment) (hsince : since = b ++ .concluded d :: d.onFinished.map .fired) :
    Finale script d since .exhausted
  /-- The choice that was made leads nowhere, and its actions were all fired. -/
  | afterChoice (b : List Moment) {index : Nat} {c : Choice} (hi : d.choices[index]? = some c)
    (hn : c.next? = none)
    (hsince : since = b ++ .offered d :: .chosen index c :: c.actions.map .fired) :
    Finale script d since .afterChoice
  /-- A tag or an action asked for it just now. -/
  | asked (b : List Moment) {m : Moment} (hm : m.closes script = true) (hsince : since = b ++ [m]) :
    Finale script d since .asked
  /-- Others asked for it, and nothing was left to do at once. -/
  | routed (hrests : ∀ m ∈ since.getLast?, m.rests = true) : Finale script d since .routed
  | stopped (hrests : ∀ m ∈ since.getLast?, m.rests = true) : Finale script d since .stopped

/-- What is true of the moments of the main performance, as it walks through its scripts. -/
structure WellWalked (ms : List Moment) : Prop where
  /-- A sound conversation begins with the dialogue that its conditions say, and at once its first
  sentence is shown. -/
  begins : ∀ a name script d r, ms = a ++ .begun name script d :: r →
    script.Sound ∧ (∃ vars, (script.startingPoint vars).value = some d) ∧
      ∃ s r', r = .shown d 0 s :: r'
  /-- So is the first sentence of a dialogue that is entered. -/
  enters : ∀ a e r, ms = a ++ .entered e :: r → ∃ s r', r = .shown e 0 s :: r'
  /-- A sentence that is shown is one of its dialogue, and the first one after a beginning, or what
  the script says after the sentence before. -/
  shows : ∀ a e j t r, ms = a ++ .shown e j t :: r →
    (∃ raw vars, e.sentences[j]? = some raw ∧ t = (Reading.ofText vars raw).sentence) ∧
      ((∃ b name script, a = b ++ [.begun name script e] ∧ j = 0) ∨
        ∃ script d i since, Told a script d i since ∧ Succession script d (i + 1) since e j)
  /-- Choices are offered when the last sentence of a dialogue that has any is whole. -/
  offers : ∀ a e r, ms = a ++ .offered e :: r →
    ∃ script i b, Told a script e i (b ++ [.whole]) ∧ e.sentences.length = i + 1 ∧ e.choices ≠ []
  /-- A choice is one of those that were offered just before. -/
  chooses : ∀ a index c r, ms = a ++ .chosen index c :: r →
    ∃ b d, a = b ++ [.offered d] ∧ d.choices[index]? = some c
  /-- The actions of a dialogue are due when its last sentence is whole and it leads nowhere. -/
  concludes : ∀ a e r, ms = a ++ .concluded e :: r →
    ∃ script i b, Told a script e i (b ++ [.whole]) ∧ e.sentences.length = i + 1 ∧
      e.choices = [] ∧ e.next? = none
  /-- Actions are those of a dialogue or of a choice, in order. -/
  fires : ∀ a x r, ms = a ++ .fired x :: r →
    (∃ b d done rest, a = b ++ .concluded d :: done.map .fired ∧
        d.onFinished = done ++ x :: rest) ∨
      ∃ b index c done rest, a = b ++ .chosen index c :: done.map .fired ∧
        c.actions = done ++ x :: rest
  /-- What asks for the end is followed by it. -/
  obeys : ∀ a m r, ms = a ++ m :: r → (∃ c, m = .tag c) ∨ (∃ x, m = .fired x) →
    ∃ script d i since, Told a script d i since ∧
      (m.closes script = true → ∃ name r', r = .ended name .asked :: r')
  /-- A conversation ends for one of the reasons there are. -/
  ends : ∀ a name why r, ms = a ++ .ended name why :: r →
    ∃ script d i since, Told a script d i since ∧ Finale script d since why
  /-- When a sentence is whole, the script says what may come next. -/
  proceeds : ∀ a m r, ms = a ++ .whole :: m :: r →
    ∃ script d i since, Told a script d i since ∧ Continuation script d (i + 1) m
  /-- In the end there is nothing left to do at once. -/
  rests : ∀ a m, ms = a ++ [m] → m.rests = true ∧
    (m = .whole → ∃ script d i since, Told a script d i since ∧ d.autoProceed = false)

/-! ## What comes before -/

theorem Told.exists_append {past since : List Moment} {script : Conversation} {d : Dialogue}
    {i : Nat} (h : Told past script d i since) : ∃ b, past = b ++ since := by
  obtain ⟨a, name, d₀, b, s, rfl, -⟩ := h
  exact ⟨a ++ .begun name script d₀ :: (b ++ [.shown d i s]), by simp⟩

namespace Stands

variable {past : List Moment} {script : Conversation} {d : Dialogue} {n : Nat}

/-- A dialogue that has just been entered has a sentence. -/
theorem sentences_ne_nil (h : Stands past (cued script d 0 ⟨[], .onward⟩)) : d.sentences ≠ [] := by
  cases h with
  | begun _ _ hd => exact hd
  | told _ _ _ hafter =>
    obtain ⟨-, ⟨-, hn, -⟩ | ⟨-, -, hd⟩⟩ := hafter.of_onward
    · cases hn
    · exact hd

/-- Where sentences are exhausted, the last of them is whole. -/
theorem of_exhausted (h : Stands past (cued script d n ⟨[], .onward⟩))
    (hn : d.sentences.length ≤ n) :
    ∃ i b, Told past script d i (b ++ [.whole]) ∧ d.sentences.length = i + 1 := by
  cases h with
  | begun _ _ hd => exact absurd hn (by simpa using hd)
  | told _ ht hi hafter =>
    obtain ⟨rfl, rfl, rfl, b, rfl⟩ := hafter.of_exhausted hn
    exact ⟨_, b, ht, Nat.le_antisymm hn hi⟩

/-- A choice that is about to be made was offered just before. -/
theorem of_choice {index : Nat} {c : Choice}
    (h : Stands past (cued script d n ⟨[], .choice index c⟩)) :
    ∃ b, past = b ++ [.offered d] := by
  cases h with
  | told _ ht _ hafter =>
    obtain ⟨b, hb⟩ := ht.exists_append
    cases hafter with
    | choice b' hpast => exact ⟨b ++ (b' ++ [.whole]), by simp [hb, hpast]⟩
    | chosen _ _ _ _ _ _ hg => exact absurd hg.symm (Choice.goal_ne_choice _ _ _)

/-- An action that is due comes after those before it. -/
theorem of_actions {x : String} {rest : List String} {g : Goal}
    (h : Stands past (cued script d n ⟨x :: rest, g⟩)) :
    (∃ b done, past = b ++ .concluded d :: done.map .fired ∧ d.onFinished = done ++ x :: rest) ∨
      ∃ b index c done, past = b ++ .chosen index c :: done.map .fired ∧
        c.actions = done ++ x :: rest := by
  cases h with
  | told _ ht _ hafter =>
    obtain ⟨b, hb⟩ := ht.exists_append
    cases hafter with
    | @chosen b' done index c _ _ hpast _ _ hactions _ =>
      exact .inr ⟨b ++ (b' ++ [.whole, .offered d]), index, c, done, by simp [hb, hpast], hactions⟩
    | concluded b' done hpast _ _ _ hactions =>
      exact .inl ⟨b ++ (b' ++ [.whole]), done, by simp [hb, hpast], hactions⟩

/-- An end that is about to come has a reason. -/
theorem of_ending {why : Ending} (h : Stands past (cued script d n ⟨[], .ending why⟩)) :
    ∃ script d i since, Told past script d i since ∧ Finale script d since why := by
  cases h with
  | @told script d i since _ _ ht _ hafter =>
    refine ⟨script, d, i, since, ht, ?_⟩
    cases hafter with
    | @chosen b done _ c _ _ hpast _ hi hactions hg =>
      obtain ⟨id, -, hlink⟩ | ⟨hn, hend⟩ := c.goal_eq
      · cases hg.trans hlink
      · cases hg.trans hend
        have hdone : c.actions = done := hactions.trans (List.append_nil _)
        exact .afterChoice (b ++ [.whole]) hi hn (by simp [hpast, hdone])
    | concluded b done hpast _ _ _ hactions =>
      have hdone : d.onFinished = done := hactions.trans (List.append_nil _)
      exact .exhausted (b ++ [.whole]) (by simp [hpast, hdone])
    | asked b hpast hm => exact .asked b hm hpast
    | routed hrests => exact .routed hrests
    | stopped hrests => exact .stopped hrests

/-- Whoever reveals a sentence, or fires actions, has shown one before. -/
theorem told_of_revealing (h : Stands past (revealing script d n)) :
    ∃ i since, Told past script d i since ∧ n = i + 1 := by
  cases h with
  | told _ ht _ hafter =>
    cases hafter with
    | revealing => exact ⟨_, _, ht, rfl⟩

theorem told_of_actions {x : String} {rest : List String} {g : Goal}
    (h : Stands past (cued script d n ⟨x :: rest, g⟩)) : ∃ i since, Told past script d i since := by
  cases h with
  | told _ ht _ hafter => cases hafter <;> exact ⟨_, _, ht⟩

end Stands

namespace Place.Strides

variable {q : Place}

/-- Where a walk stands before a moment, and where it goes on. -/
theorem at_moment {a r : List Moment} {m : Moment} (h : Strides .idle (a ++ m :: r) q) :
    ∃ vars p p', Stands a p ∧ Stride vars p (some m) p' ∧ Strides p' r q := by
  obtain ⟨vars, p, p', ha, hm, hr⟩ := h.around rfl
  have hstands : Stands ([] ++ a) p := ha.stands .idle
  exact ⟨vars, p, p', hstands, hm, hr⟩

/-- What asks for the end is followed by it. -/
theorem ended_of_closes {a r : List Moment} {m : Moment} (h : Strides .idle (a ++ m :: r) q)
    (hq : q.goal? = none) (hm : (∃ c, m = .tag c) ∨ ∃ x, m = .fired x) :
    ∃ script d i since, Told a script d i since ∧
      (m.closes script = true → ∃ name r', r = .ended name .asked :: r') := by
  obtain ⟨vars, p, p', hp, hstride, hr⟩ := h.at_moment
  obtain ⟨c, rfl⟩ | ⟨x, rfl⟩ := hm
  · cases hstride with
    | tag hc =>
      obtain ⟨i, since, ht, -⟩ := hp.told_of_revealing
      exact ⟨_, _, i, since, ht, fun hclose => by rw [hc] at hclose; cases hclose⟩
    | lastTag hc =>
      obtain ⟨i, since, ht, -⟩ := hp.told_of_revealing
      exact ⟨_, _, i, since, ht, fun _ => hr.next_of_asked hq⟩
  · cases hstride with
    | fired hc =>
      obtain ⟨i, since, ht⟩ := hp.told_of_actions
      exact ⟨_, _, i, since, ht, fun hclose => by rw [hc] at hclose; cases hclose⟩
    | lastAction hc =>
      obtain ⟨i, since, ht⟩ := hp.told_of_actions
      exact ⟨_, _, i, since, ht, fun _ => hr.next_of_asked hq⟩

/-- When a sentence is whole, the script says what may come next. -/
theorem continuation_of_whole {a r : List Moment} {m : Moment}
    (h : Strides .idle (a ++ .whole :: m :: r) q) :
    ∃ script d i since, Told a script d i since ∧ Continuation script d (i + 1) m := by
  obtain ⟨vars, p, p', hp, hwhole, hr⟩ := h.at_moment
  obtain ⟨vars', p₁, p₂, hp₁, hm, -⟩ := hr.uncons
  cases hwhole with
  | @whole script d said =>
    obtain ⟨i, since, ht, rfl⟩ := hp.told_of_revealing
    refine ⟨script, d, i, since, ht, (hp₁.poised rfl ?_).continuation hm⟩
    split
    case isTrue => exact .onward
    case isFalse hauto => exact .waiting (eq_false_of_ne_true hauto)

/-- In the end there is nothing left to do at once. -/
theorem rests_of_last {a : List Moment} {m : Moment} (h : Strides .idle (a ++ [m]) q)
    (hq : q.goal? = none) :
    m.rests = true ∧
      (m = .whole → ∃ script d i since, Told a script d i since ∧ d.autoProceed = false) := by
  obtain ⟨vars, p, p', hp, hm, hr⟩ := h.at_moment
  have hgoal : p'.goal? = none := by
    cases hg : p'.goal? with
    | none => rfl
    | some g =>
      obtain ⟨_, _, _, _, hnil, -⟩ := hr.next_of_goal? hq hg
      cases hnil
  cases hm with
  | shown | letter | tag | offered | ended => exact ⟨rfl, fun hm => by cases hm⟩
  | @whole script d said =>
    obtain ⟨i, since, ht, -⟩ := hp.told_of_revealing
    refine ⟨rfl, fun _ => ⟨script, d, i, since, ht, ?_⟩⟩
    split at hgoal
    case isTrue => cases hgoal
    case isFalse hauto => exact eq_false_of_ne_true hauto
  | _ => cases hgoal

/-- **A walk that is not about to go anywhere has gone through scripts.** -/
theorem wellWalked {ms : List Moment} (h : Strides .idle ms q) (hq : q.goal? = none) :
    WellWalked ms := by
  constructor
  case begins =>
    rintro a name script d r rfl
    obtain ⟨vars, p, p', -, hm, hr⟩ := h.at_moment
    cases hm with
    | begun hs hd =>
      have hne := hs.sentences d (Conversation.mem_of_startingPoint hd)
      exact ⟨hs, ⟨vars, hd⟩, hr.next_of_start hne hq⟩
  case enters =>
    rintro a e r rfl
    obtain ⟨vars, p, p', hp, hm, hr⟩ := h.at_moment
    have hp' := hp.stride hm
    cases hm with
    | link | follow => exact hr.next_of_start hp'.sentences_ne_nil hq
  case shows =>
    rintro a e j t r rfl
    obtain ⟨vars, p, p', hp, hm, -⟩ := h.at_moment
    cases hp with
    | idle => cases hm
    | @begun b name script _ hpast =>
      cases hm with
      | shown hraw => exact ⟨⟨_, vars, hraw, rfl⟩, .inl ⟨b, name, script, hpast, rfl⟩⟩
    | @told script d i since _ _ ht _ hafter =>
      obtain ⟨-, -, hnext⟩ := hafter.shown hm
      cases hm with
      | shown hraw => exact ⟨⟨_, vars, hraw, rfl⟩, .inr ⟨script, d, i, since, ht, hnext⟩⟩
  case offers =>
    rintro a e r rfl
    obtain ⟨vars, p, p', hp, hm, -⟩ := h.at_moment
    cases hm with
    | offered hs hc =>
      obtain ⟨i, b, ht, hlen⟩ := hp.of_exhausted hs
      exact ⟨_, i, b, ht, hlen, hc⟩
  case chooses =>
    rintro a index c r rfl
    obtain ⟨vars, p, p', hp, hm, -⟩ := h.at_moment
    cases hm with
    | chosen hi =>
      obtain ⟨b, hb⟩ := hp.of_choice
      exact ⟨b, _, hb, hi⟩
  case concludes =>
    rintro a e r rfl
    obtain ⟨vars, p, p', hp, hm, -⟩ := h.at_moment
    cases hm with
    | concluded hs hc hn =>
      obtain ⟨i, b, ht, hlen⟩ := hp.of_exhausted hs
      exact ⟨_, i, b, ht, hlen, hc, hn⟩
  case fires =>
    rintro a x r rfl
    obtain ⟨vars, p, p', hp, hm, -⟩ := h.at_moment
    cases hm with
    | fired | lastAction =>
      obtain ⟨b, done, hb, hd⟩ | ⟨b, index, c, done, hb, hc⟩ := hp.of_actions
      · exact .inl ⟨b, _, done, _, hb, hd⟩
      · exact .inr ⟨b, index, c, done, _, hb, hc⟩
  case obeys =>
    rintro a m r rfl hm
    exact h.ended_of_closes hq hm
  case ends =>
    rintro a name why r rfl
    obtain ⟨vars, p, p', hp, hm, -⟩ := h.at_moment
    cases hm with
    | ended => exact hp.of_ending
  case proceeds =>
    rintro a m r rfl
    exact h.continuation_of_whole
  case rests =>
    rintro a m rfl
    exact h.rests_of_last hq

end Place.Strides

/-- **The main performance walks through its scripts.** Whatever conversations are stored, however
the variables stand and whatever operations a game asks for, the main performance goes through them
stride by stride, and what is on record of it is a walk. -/
theorem Playback.walks_run (entries : List (String × Conversation)) (setting : Setting)
    (vars : Variables) (os : List Operation) :
    let x := Playback.new (.stocked entries) setting vars
    ∃ (acts : Acts) (l : List Happening), acts.map (·.1) = os ∧ x.Walks acts (x.run os) ∧
      l.map (·.mark) = acts.marks ∧ Orderly (x.run os) l ∧
        WellWalked (l.filterMap (Happening.on? .main)) := by
  intro x
  have hx : (Scene.of x).Sound :=
    Scene.sound_new (Library.sound_stocked entries) setting vars
  obtain ⟨acts, hos, hplays⟩ := exists_plays os hx
  obtain ⟨l, hl, horderly⟩ := hplays.exists_orderly hx
  have hwalks := hplays.walks hx
  refine ⟨acts, l, hos, hwalks, hl, horderly, ?_⟩
  rw [Acts.filterMap_on? hl]
  exact hwalks.strides.wellWalked (goal?_place _)

end Colloquy
