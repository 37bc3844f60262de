import Colloquy.Proofs.Playback.Strides

/-!
# Proofs/Playback/Succession — which sentence comes after which

After so many sentences of a dialogue, the one that is shown next is a `Succession` of the script,
for the moments that came in between. `After` says where the main performance may stand until then,
and what came for it to stand there; each stride keeps it (`After.stride`).
-/

namespace Colloquy

open Markup

open Place

/-! ## What may be shown next -/

/-- Which sentence may be shown after so many of a dialogue, and some moments since then. -/
inductive Succession (script : Conversation) (d : Dialogue) (said : Nat) (past : List Moment) :
    Dialogue → Nat → Prop
  /-- The next sentence of the dialogue. -/
  | following (b : List Moment) (hpast : past = b ++ [.whole]) (hs : said < d.sentences.length) :
    Succession script d said past d said
  /-- The first sentence of the next dialogue, where there are no choices. -/
  | linked (b : List Moment) {e : Dialogue} {id : Int32} (hpast : past = b ++ [.whole, .entered e])
    (hs : d.sentences.length ≤ said) (hc : d.choices = []) (hn : d.next? = some id)
    (he : script.dialogue? id = some e) : Succession script d said past e 0
  /-- The first sentence of the dialogue that a choice leads to, which was offered and made, and
  whose actions were all fired. -/
  | chosen (b : List Moment) {e : Dialogue} {index : Nat} {c : Choice} {id : Int32}
    (hpast : past = b ++
      .whole :: .offered d :: .chosen index c :: (c.actions.map .fired ++ [.entered e]))
    (hs : d.sentences.length ≤ said) (hi : d.choices[index]? = some c) (hn : c.next? = some id)
    (he : script.dialogue? id = some e) : Succession script d said past e 0

/-- Whether nothing is left to do at once after a moment. -/
def Moment.rests : Moment → Bool
  | shown .. | letter | tag _ | whole | offered _ | ended .. => true
  | _ => false

/-- Where the main performance may stand after so many sentences of a dialogue, and some moments
since then, as long as no other sentence is shown. -/
inductive After (script : Conversation) (d : Dialogue) (said : Nat) (past : List Moment) :
    Place → Prop
  | revealing (hrests : ∀ m ∈ past.getLast?, m.rests = true) :
    After script d said past (.revealing script d said)
  | waiting (b : List Moment) (hpast : past = b ++ [.whole]) :
    After script d said past (.waiting script d said)
  | onward (b : List Moment) (hpast : past = b ++ [.whole]) :
    After script d said past (.cued script d said ⟨[], .onward⟩)
  | choosing (b : List Moment) (hpast : past = b ++ [.whole, .offered d])
    (hs : d.sentences.length ≤ said) : After script d said past (.choosing script d said)
  | choice (b : List Moment) {index : Nat} {c : Choice} (hpast : past = b ++ [.whole, .offered d])
    (hs : d.sentences.length ≤ said) :
    After script d said past (.cued script d said ⟨[], .choice index c⟩)
  /-- Some actions of the choice that was made are fired, and the rest is due. -/
  | chosen (b : List Moment) (done : List String) {index : Nat} {c : Choice} {g : Goal}
    {rest : List String}
    (hpast : past = b ++ .whole :: .offered d :: .chosen index c :: done.map .fired)
    (hs : d.sentences.length ≤ said) (hi : d.choices[index]? = some c)
    (hactions : c.actions = done ++ rest) (hg : g = c.goal) :
    After script d said past (.cued script d said ⟨rest, g⟩)
  | entered {e : Dialogue} (h : Succession script d said past e 0) (he : e.sentences ≠ []) :
    After script d said past (.cued script e 0 ⟨[], .onward⟩)
  /-- Some actions of the dialogue are fired, and the rest is due. -/
  | concluded (b : List Moment) (done : List String) {rest : List String}
    (hpast : past = b ++ .whole :: .concluded d :: done.map .fired)
    (hs : d.sentences.length ≤ said) (hc : d.choices = []) (hn : d.next? = none)
    (hactions : d.onFinished = done ++ rest) :
    After script d said past (.cued script d said ⟨rest, .ending .exhausted⟩)
  | asked (b : List Moment) {m : Moment} (hpast : past = b ++ [m])
    (hm : m.closes script = true) :
    After script d said past (.cued script d said ⟨[], .ending .asked⟩)
  | routed (hrests : ∀ m ∈ past.getLast?, m.rests = true) :
    After script d said past (.cued script d said ⟨[], .ending .routed⟩)
  | stopped (hrests : ∀ m ∈ past.getLast?, m.rests = true) :
    After script d said past (.cued script d said ⟨[], .ending .stopped⟩)

/-- Whether a moment is neither a sentence nor a beginning nor an end. -/
def Moment.isBetween : Moment → Bool
  | .shown .. | .begun .. | .ended .. => false
  | _ => true

/-- Each dialogue that is entered has a sentence. -/
theorem Conversation.Sound.sentences_ne_nil {script : Conversation} (hs : script.Sound)
    {id : Int32} {e : Dialogue} (he : script.dialogue? id = some e) : e.sentences ≠ [] :=
  hs.sentences e (Conversation.mem_of_dialogue? he).1

/-- A choice leads to a dialogue or to the end. -/
theorem Choice.goal_eq (c : Choice) :
    (∃ id, c.next? = some id ∧ c.goal = .link id) ∨
      (c.next? = none ∧ c.goal = .ending .afterChoice) := by
  unfold goal
  cases c.next? with
  | some id => exact .inl ⟨id, rfl, rfl⟩
  | none => exact .inr ⟨rfl, rfl⟩

theorem Choice.goal_ne_onward (c : Choice) : c.goal ≠ .onward := by
  obtain ⟨id, -, h⟩ | ⟨-, h⟩ := c.goal_eq <;> rw [h] <;> exact Goal.noConfusion

theorem Choice.goal_ne_choice (c : Choice) (index : Nat) (e : Choice) :
    c.goal ≠ .choice index e := by
  obtain ⟨id, -, h⟩ | ⟨-, h⟩ := c.goal_eq <;> rw [h] <;> exact Goal.noConfusion

namespace After

variable {script : Conversation} {d : Dialogue} {said : Nat} {past : List Moment} {p : Place}

theorem rests_of_waiting {b : List Moment} (hpast : past = b ++ [.whole]) :
    ∀ m ∈ past.getLast?, m.rests = true := by
  simp [hpast, Moment.rests]

theorem rests_of_choosing {b : List Moment} (hpast : past = b ++ [.whole, .offered d]) :
    ∀ m ∈ past.getLast?, m.rests = true := by
  simp [hpast, Moment.rests]

/-- What the game asks for does not lead elsewhere. -/
theorem ask (h : After script d said past p) (o : Operation) :
    After script d said past (p.ask o) := by
  cases h with
  | revealing hrests =>
    cases o with
    | stop => exact .stopped hrests
    | _ => exact .revealing hrests
  | waiting b hpast =>
    cases o with
    | next => exact .onward b hpast
    | stop => exact .stopped (rests_of_waiting hpast)
    | _ => exact .waiting b hpast
  | choosing b hpast hs =>
    cases o with
    | select index =>
      dsimp only [Place.ask]
      cases d.choices[index]? with
      | some c => exact .choice b hpast hs
      | none => exact .choosing b hpast hs
    | stop => exact .stopped (rests_of_choosing hpast)
    | _ => exact .choosing b hpast hs
  | onward b hpast => cases o <;> exact .onward b hpast
  | choice b hpast hs => cases o <;> exact .choice b hpast hs
  | chosen b done hpast hs hi hactions hg =>
    cases o <;> exact .chosen b done hpast hs hi hactions hg
  | entered h he => cases o <;> exact .entered h he
  | concluded b done hpast hs hc hn hactions =>
    cases o <;> exact .concluded b done hpast hs hc hn hactions
  | asked b hpast hm => cases o <;> exact .asked b hpast hm
  | routed hrests => cases o <;> exact .routed hrests
  | stopped hrests => cases o <;> exact .stopped hrests

/-- Where it goes on, it is from a sentence that is whole, or into a dialogue. -/
theorem of_onward {e : Dialogue} {n : Nat} {script' : Conversation}
    (h : After script d said past (.cued script' e n ⟨[], .onward⟩)) :
    script' = script ∧ ((e = d ∧ n = said ∧ ∃ b, past = b ++ [.whole]) ∨
      (n = 0 ∧ Succession script d said past e 0 ∧ e.sentences ≠ [])) := by
  cases h with
  | onward b hpast => exact ⟨rfl, .inl ⟨rfl, rfl, b, hpast⟩⟩
  | chosen _ _ _ _ _ _ hg => exact absurd hg.symm (Choice.goal_ne_onward _)
  | entered h he => exact ⟨rfl, .inr ⟨rfl, h, he⟩⟩

/-- Where the sentences are exhausted, it goes on from a sentence that is whole. -/
theorem of_exhausted {e : Dialogue} {n : Nat} {script' : Conversation}
    (h : After script d said past (.cued script' e n ⟨[], .onward⟩)) (hs : e.sentences.length ≤ n) :
    script' = script ∧ e = d ∧ n = said ∧ ∃ b, past = b ++ [.whole] := by
  obtain ⟨hscript, hwhole | ⟨rfl, -, he⟩⟩ := h.of_onward
  · exact ⟨hscript, hwhole⟩
  · exact absurd (List.length_eq_zero_iff.1 (Nat.le_zero.1 hs)) he

/-- **Each stride that is no sentence leads on** from a sentence, and in no other direction. -/
theorem stride (hsound : script.Sound) {vars : Variables} {m? : Option Moment} {p' : Place}
    (h : After script d said past p) (hp : Stride vars p m? p')
    (hm : ∀ m ∈ m?, m.isBetween = true) : After script d said (past ++ m?.toList) p' := by
  cases hp with
  | stay => rwa [Option.toList_none, List.append_nil]
  | obey hrests =>
    rw [Option.toList_none, List.append_nil]
    cases hrests with
    | revealing => cases h with | revealing hlast => exact .routed hlast
    | waiting => cases h with | waiting b hpast => exact .routed (rests_of_waiting hpast)
    | choosing => cases h with | choosing b hpast hs => exact .routed (rests_of_choosing hpast)
  | begun | shown | ended => exact absurd (hm _ rfl) (by simp [Moment.isBetween])
  | letter | tag => cases h; exact .revealing (by simp [Moment.rests])
  | lastTag hc => cases h; exact .asked past rfl hc
  | whole =>
    cases h
    split
    · exact .onward past rfl
    · exact .waiting past rfl
  | link hs hc hn he =>
    obtain ⟨rfl, rfl, rfl, b, rfl⟩ := h.of_exhausted hs
    exact .entered (.linked b (by simp) hs hc hn he) (hsound.sentences_ne_nil he)
  | offered hs hc =>
    obtain ⟨rfl, rfl, rfl, b, rfl⟩ := h.of_exhausted hs
    exact .choosing b (by simp) hs
  | concluded hs hc hn =>
    obtain ⟨rfl, rfl, rfl, b, rfl⟩ := h.of_exhausted hs
    exact .concluded b [] (by simp) hs hc hn rfl
  | chosen hi =>
    cases h with
    | choice b hpast hs => exact .chosen b [] (by simp [hpast]) hs hi rfl rfl
    | chosen _ _ _ _ _ _ hg => exact absurd hg.symm (Choice.goal_ne_choice _ _ _)
  | @fired _ _ _ a =>
    cases h with
    | chosen b done hpast hs hi hactions hg =>
      exact .chosen b (done ++ [a]) (by simp [hpast]) hs hi (by simp [hactions]) hg
    | concluded b done hpast hs hc hn hactions =>
      exact .concluded b (done ++ [a]) (by simp [hpast]) hs hc hn (by simp [hactions])
  | lastAction hc => cases h <;> exact .asked past rfl hc
  | follow he =>
    cases h with
    | @chosen b done _ c _ _ hpast hs hi hactions hg =>
      obtain ⟨id, hn, hlink⟩ | ⟨-, hend⟩ := c.goal_eq
      · cases hg.trans hlink
        have hdone : c.actions = done := hactions.trans (List.append_nil _)
        exact .entered (.chosen b (by simp [hpast, hdone]) hs hi hn he)
          (hsound.sentences_ne_nil he)
      · cases hg.trans hend

/-- A sentence that is shown is one that may be shown next. -/
theorem shown {vars : Variables} {e : Dialogue} {place : Nat} {s : Sentence} {p' : Place}
    (h : After script d said past p) (hp : Stride vars p (some (.shown e place s)) p') :
    p' = .revealing script e (place + 1) ∧ place < e.sentences.length ∧
      Succession script d said past e place := by
  cases hp with
  | shown hs =>
    have hlt := (List.getElem?_eq_some_iff.1 hs).1
    obtain ⟨rfl, ⟨rfl, rfl, b, hpast⟩ | ⟨rfl, hnext, -⟩⟩ := h.of_onward
    · exact ⟨rfl, hlt, .following b hpast hlt⟩
    · exact ⟨rfl, hlt, hnext⟩

end After

end Colloquy
