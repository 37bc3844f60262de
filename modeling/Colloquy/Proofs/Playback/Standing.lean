import Colloquy.Proofs.Playback.Succession

/-!
# Proofs/Playback/Standing — what came before tells what may come next

What came before tells where the main performance stands in its script (`Stands`), all along a walk
(`Place.Strides.stands`). Whatever is left to do at once is done next; when a sentence is whole, the
script says what may come next (`Continuation`).
-/

namespace Colloquy

open Markup

open Place

/-! ## Where the main performance stands -/

/-- Since the last beginning, the sentence at a place of a dialogue was shown last, and some moments
came after it. -/
def Told (past : List Moment) (script : Conversation) (d : Dialogue) (i : Nat)
    (since : List Moment) : Prop :=
  ∃ a name d₀ b s, past = a ++ .begun name script d₀ :: (b ++ .shown d i s :: since) ∧
    (∀ m ∈ b, m.bounds = false) ∧ ∀ m ∈ since, m.isBetween = true

theorem Moment.bounds_of_isBetween {m : Moment} (h : m.isBetween = true) : m.bounds = false := by
  cases m with
  | begun | ended => cases h
  | _ => rfl

namespace Told

variable {past since : List Moment} {script : Conversation} {d : Dialogue} {i : Nat}

/-- Another moment that is no sentence comes. -/
theorem append {ms : List Moment} (h : Told past script d i since)
    (hms : ∀ m ∈ ms, m.isBetween = true) : Told (past ++ ms) script d i (since ++ ms) := by
  obtain ⟨a, name, d₀, b, s, rfl, hb, hsince⟩ := h
  exact ⟨a, name, d₀, b, s, by simp, hb, List.forall_mem_append.2 ⟨hsince, hms⟩⟩

/-- Another sentence is shown. -/
theorem shown (h : Told past script d i since) (e : Dialogue) (j : Nat) (t : Sentence) :
    Told (past ++ [.shown e j t]) script e j [] := by
  obtain ⟨a, name, d₀, b, s, rfl, hb, hsince⟩ := h
  refine ⟨a, name, d₀, b ++ .shown d i s :: since, t, by simp, ?_, List.forall_mem_nil _⟩
  refine List.forall_mem_append.2 ⟨hb, List.forall_mem_cons.2 ⟨rfl, fun m hm => ?_⟩⟩
  exact Moment.bounds_of_isBetween (hsince m hm)

end Told

/-- Where the main performance stands after some moments. -/
inductive Stands (past : List Moment) : Place → Prop
  | idle : Stands past .idle
  | begun {a : List Moment} {name : String} {script : Conversation} {d : Dialogue}
    (hpast : past = a ++ [.begun name script d]) (hs : script.Sound) (hd : d.sentences ≠ []) :
    Stands past (.cued script d 0 ⟨[], .onward⟩)
  | told {script : Conversation} {d : Dialogue} {i : Nat} {since : List Moment} {p : Place}
    (hs : script.Sound) (ht : Told past script d i since) (hi : i < d.sentences.length)
    (hp : After script d (i + 1) since p) : Stands past p

namespace Stands

variable {past : List Moment} {p p' : Place} {vars : Variables}

theorem ask (h : Stands past p) (o : Operation) : Stands past (p.ask o) := by
  cases h with
  | idle => cases o <;> exact .idle
  | begun hpast hs hd => cases o <;> exact .begun hpast hs hd
  | told hs ht hi hp => exact .told hs ht hi (hp.ask o)

/-- **Each stride is one from where the main performance stands.** -/
theorem stride {m? : Option Moment} (h : Stands past p) (hp : Stride vars p m? p') :
    Stands (past ++ m?.toList) p' := by
  cases h with
  | idle =>
    cases hp with
    | stay => exact .idle
    | obey hrests => cases hrests
    | begun hs hd => exact .begun rfl hs (hs.sentences _ (Conversation.mem_of_startingPoint hd))
  | @begun a name script d hpast hs hd =>
    have hne : ¬ d.sentences.length ≤ 0 := by simpa using hd
    cases hp with
    | stay =>
      rw [Option.toList_none, List.append_nil]
      exact .begun hpast hs hd
    | obey hrests => cases hrests
    | @shown _ _ _ raw hraw =>
      have ht : Told (past ++ [.shown d 0 (Reading.ofText vars raw).sentence]) script d 0 [] :=
        ⟨a, name, d, [], _, by rw [hpast, List.append_assoc]; rfl, List.forall_mem_nil _,
          List.forall_mem_nil _⟩
      exact .told hs ht (List.getElem?_eq_some_iff.1 hraw).1 (.revealing (by simp))
    | link hlen | offered hlen | concluded hlen => exact absurd hlen hne
  | @told script d i since p hs ht hi hafter =>
    by_cases hbetween : ∀ m ∈ m?, m.isBetween = true
    · refine .told hs (ht.append fun m hm => ?_) hi (hafter.stride hs hp hbetween)
      exact hbetween m (Option.mem_toList.1 hm)
    · cases hp with
      | @shown _ e n raw hraw =>
        obtain ⟨rfl, -⟩ := hafter.of_onward
        exact .told hs (ht.shown e n _) (List.getElem?_eq_some_iff.1 hraw).1 (.revealing (by simp))
      | ended => exact .idle
      | begun => cases hafter
      | _ => exact absurd (by simp [Moment.isBetween]) hbetween

end Stands

/-- **What came before tells where a walk stands.** -/
theorem Place.Strides.stands {p q : Place} {ms : List Moment} (h : Strides p ms q) :
    ∀ {past : List Moment}, Stands past p → Stands (past ++ ms) q := by
  induction h with
  | nil => exact fun hp => by rwa [List.append_nil]
  | @ask o _ _ _ _ ih => exact fun hp => ih (hp.ask o)
  | silent hstride _ ih =>
    intro past hp
    have hnext := hp.stride hstride
    rw [Option.toList_none, List.append_nil] at hnext
    exact ih hnext
  | cons hstride _ ih =>
    intro past hp
    have hnext := ih (hp.stride hstride)
    rwa [Option.toList_some, List.append_assoc, List.singleton_append] at hnext

/-! ## What comes next -/

/-- What may come next when so many sentences of a dialogue are whole. -/
inductive Continuation (script : Conversation) (d : Dialogue) (said : Nat) : Moment → Prop
  | shown {s : Sentence} (hs : said < d.sentences.length) :
    Continuation script d said (.shown d said s)
  | offered (hs : d.sentences.length ≤ said) (hc : d.choices ≠ []) :
    Continuation script d said (.offered d)
  | entered {e : Dialogue} {id : Int32} (hs : d.sentences.length ≤ said) (hc : d.choices = [])
    (hn : d.next? = some id) (he : script.dialogue? id = some e) :
    Continuation script d said (.entered e)
  | concluded (hs : d.sentences.length ≤ said) (hc : d.choices = []) (hn : d.next? = none) :
    Continuation script d said (.concluded d)
  /-- Others ask for the end, unless the dialogue proceeds by itself. -/
  | ended {name : String} {why : Ending} (hauto : d.autoProceed = false)
    (hwhy : why = .routed ∨ why = .stopped) : Continuation script d said (.ended name why)

namespace Place

variable {script : Conversation} {d : Dialogue} {said : Nat} {p q : Place} {vars : Variables}

/-- The last sentence is whole, and nothing has come since. -/
inductive Poised (script : Conversation) (d : Dialogue) (said : Nat) : Place → Prop
  | waiting (hauto : d.autoProceed = false) : Poised script d said (waiting script d said)
  | onward : Poised script d said (cued script d said ⟨[], .onward⟩)
  | ending {why : Ending} (hauto : d.autoProceed = false)
    (hwhy : why = .routed ∨ why = .stopped) :
    Poised script d said (cued script d said ⟨[], .ending why⟩)

theorem Strides.poised {ms : List Moment} (h : Strides p ms q) (hms : ms = [])
    (hp : Poised script d said p) : Poised script d said q := by
  induction h with
  | nil => exact hp
  | @ask o _ _ _ _ ih =>
    refine ih hms ?_
    cases hp with
    | waiting hauto =>
      cases o with
      | next => exact .onward
      | stop => exact .ending hauto (.inr rfl)
      | _ => exact .waiting hauto
    | onward => cases o <;> exact .onward
    | ending hauto hwhy => cases o <;> exact .ending hauto hwhy
  | silent hstride _ ih =>
    refine ih hms ?_
    cases hstride with
    | stay => exact hp
    | obey hrests =>
      cases hp with
      | waiting hauto =>
        cases hrests
        exact .ending hauto (.inl rfl)
      | onward | ending => cases hrests
  | cons => cases hms

/-- From a sentence that is whole there is one way on. -/
theorem Poised.continuation {m : Moment} {p' : Place} (hp : Poised script d said p)
    (h : Stride vars p (some m) p') : Continuation script d said m := by
  cases hp with
  | waiting => cases h
  | onward =>
    cases h with
    | shown hraw => exact .shown (List.getElem?_eq_some_iff.1 hraw).1
    | link hs hc hn he => exact .entered hs hc hn he
    | offered hs hc => exact .offered hs hc
    | concluded hs hc hn => exact .concluded hs hc hn
  | ending hauto hwhy =>
    cases h with
    | ended => exact .ended hauto hwhy

/-- Whoever is about to go somewhere goes there next. -/
theorem Strides.next_of_goal? {ms : List Moment} {g : Goal} (h : Strides p ms q)
    (hq : q.goal? = none) (hp : p.goal? = some g) :
    ∃ vars m ns p', ms = m :: ns ∧ Stride vars p (some m) p' := by
  cases ms with
  | nil =>
    rw [h.eq_of_goal? rfl hp, hp] at hq
    cases hq
  | cons m ns =>
    obtain ⟨vars, p₁, p₂, hp₁, hm, -⟩ := h.uncons
    obtain rfl := hp₁.eq_of_goal? rfl hp
    exact ⟨vars, m, ns, p₂, rfl, hm⟩

/-- The first sentence of a dialogue is shown as soon as it is entered. -/
theorem Strides.next_of_start {ms : List Moment} (hd : d.sentences ≠ [])
    (h : Strides (cued script d 0 ⟨[], .onward⟩) ms q) (hq : q.goal? = none) :
    ∃ s ns, ms = .shown d 0 s :: ns := by
  obtain ⟨vars, m, ns, p', rfl, hm⟩ := h.next_of_goal? hq rfl
  have hne : ¬ d.sentences.length ≤ 0 := by simpa using hd
  cases hm with
  | shown => exact ⟨_, ns, rfl⟩
  | link hs | offered hs | concluded hs => exact absurd hs hne

/-- A conversation ends as soon as a moment has asked for it. -/
theorem Strides.next_of_asked {ms : List Moment}
    (h : Strides (cued script d said ⟨[], .ending .asked⟩) ms q) (hq : q.goal? = none) :
    ∃ name ns, ms = .ended name .asked :: ns := by
  obtain ⟨vars, m, ns, p', rfl, hm⟩ := h.next_of_goal? hq rfl
  cases hm with
  | ended => exact ⟨_, ns, rfl⟩

end Place

end Colloquy
