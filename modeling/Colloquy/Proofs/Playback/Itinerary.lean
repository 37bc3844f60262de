import Colloquy.Proofs.Playback.Solo
import Mathlib.Data.List.Chain

/-!
# Proofs/Playback/Itinerary — the way of a background conversation through its script

A background conversation goes from dialogue to dialogue. A `Visit` is its stay in one of them,
with each `Utterance` that it makes there, and an `Itinerary` is a list of visits that keeps to the
script.
-/

namespace Colloquy

open Markup

/-! ## Utterances and visits -/

/-- A sentence that is said in the background. -/
structure Utterance where
  sentence : Sentence
  sameSpeaker : Bool
  /-- The timings that hold as it is laid out. -/
  timings : Timings
  /-- Whether it is held back for longer, after a move. -/
  late : Bool
  /-- How many of its characters have been revealed. -/
  revealed : Nat
  whole : Bool

namespace Utterance

/-- The delay before the first character. -/
def delay (u : Utterance) : Single :=
  if u.late then u.timings.backgroundStartDelay + u.timings.anchorChangeDelay
  else u.timings.backgroundStartDelay

/-- The reveal that begins as the sentence is laid out. -/
def reveal (u : Utterance) : Reveal := .ofSentence u.sentence u.timings.backgroundCharDelay u.delay

/-- What is seen of an utterance. -/
def seen (c : Channel) (speaker? : Option String) (u : Utterance) : Trace :=
  .sentence c u.sentence.text speaker? u.sameSpeaker true ::
    (.replicate u.revealed (.reveal c) ++ if u.whole then [.revealed c] else [])

/-- An utterance is a raw sentence as it is read for some variables, and no more of it is revealed
than there is. -/
structure Tells (raw : String) (u : Utterance) : Prop where
  sentence : ∃ vars, u.sentence = (Reading.ofText vars raw).sentence
  revealed_le : u.revealed ≤ u.sentence.size
  of_whole : u.whole = true → u.revealed = u.sentence.size

end Utterance

/-- The stay of a background conversation in a dialogue. -/
structure Visit where
  dialogue : Dialogue
  /-- The anchor that it moves to on entering the dialogue, if it does. -/
  move? : Option String
  /-- The anchor that it moved to last, then or before. -/
  anchor? : Option String
  utterances : List Utterance

namespace Visit

/-- What is seen of a visit: the move comes before the utterances. -/
def seen (c : Channel) (v : Visit) : Trace :=
  v.move?.toList.map (.anchor c) ++ v.utterances.flatMap (Utterance.seen c v.dialogue.speaker?)

/-- Whether the first utterance is held back for longer. -/
def late? (v : Visit) : Option Bool := v.utterances.head?.map (·.late)

/-- The reveals that begin in a visit, with the timings that hold then. -/
def reveals (v : Visit) : List (Timings × Reveal) := v.utterances.map fun u => (u.timings, u.reveal)

/-- The utterances are the sentences of the dialogue, from the first one on, each of them once and
all of it before the next one. Only the first of them may be held back for longer. -/
structure Faithful (v : Visit) : Prop where
  ne_nil : v.utterances ≠ []
  tells : ∀ (i : Nat) (u : Utterance), v.utterances[i]? = some u →
    ∃ raw, v.dialogue.sentences[i]? = some raw ∧ u.Tells raw
  whole : ∀ (i : Nat) (u : Utterance), v.utterances[i]? = some u →
    i + 1 < v.utterances.length → u.whole = true
  late : ∀ (i : Nat) (u : Utterance), v.utterances[i]? = some u → u.late = true → i = 0

/-- All sentences of the dialogue have been said, and are whole. -/
structure Complete (v : Visit) : Prop where
  length : v.utterances.length = v.dialogue.sentences.length
  whole : ∀ u ∈ v.utterances, u.whole = true

/-- There is a move exactly if the dialogue has an anchor other than the one that was moved to
last. -/
structure Moves (here? : Option String) (v : Visit) : Prop where
  move? : v.move? = v.dialogue.moveFrom? here?
  anchor? : v.anchor? = v.move?.or here?

/-- A visit comes after another that is complete and whose dialogue links on to it. Its first
utterance is held back for longer exactly if there is a move. -/
structure Leads (script : Conversation) (v w : Visit) : Prop where
  complete : v.Complete
  link : ∃ id, v.dialogue.next? = some id ∧ script.dialogue? id = some w.dialogue
  moves : w.Moves v.anchor?
  late : w.late? = some w.move?.isSome

end Visit

/-- Visits that keep to the script: the first is that of the dialogue where the script starts for
the variables, and each leads to the next one. -/
structure Itinerary (script : Conversation) (vars : Variables) (visits : List Visit) : Prop where
  ne_nil : visits ≠ []
  starts : ∀ v ∈ visits.head?, (script.startingPoint vars).value = some v.dialogue ∧
    v.Moves none ∧ v.late? = some false
  faithful : ∀ v ∈ visits, v.Faithful
  leads : visits.IsChain (Visit.Leads script)

/-! ## One more utterance -/

theorem getElem?_concat_eq_some {α : Type} {xs : List α} {x y : α} {i : Nat}
    (h : (xs ++ [x])[i]? = some y) : xs[i]? = some y ∨ (i = xs.length ∧ y = x) := by
  rcases Nat.lt_trichotomy i xs.length with hi | rfl | hi
  · rw [List.getElem?_append_left hi] at h
    exact .inl h
  · rw [List.getElem?_concat_length] at h
    cases h
    exact .inr ⟨rfl, rfl⟩
  · rw [List.getElem?_eq_none (by simp; omega)] at h
    cases h

namespace Utterance

/-- The same utterance, of which more has been revealed. -/
def goOn (u : Utterance) (n : Nat) (whole : Bool) : Utterance :=
  { u with revealed := u.revealed + n, whole }

theorem seen_goOn {u : Utterance} (h : u.whole = false) (c : Channel) (speaker? : Option String)
    (n : Nat) (whole : Bool) :
    (u.goOn n whole).seen c speaker? =
      u.seen c speaker? ++ (.replicate n (.reveal c) ++ if whole then [.revealed c] else []) := by
  unfold seen goOn
  cases whole <;> simp [h, ← List.replicate_append_replicate]

theorem Tells.goOn {raw : String} {u : Utterance} (h : u.Tells raw) {n : Nat} {whole : Bool}
    (hn : u.revealed + n ≤ u.sentence.size)
    (hwhole : whole = true → u.revealed + n = u.sentence.size) : (u.goOn n whole).Tells raw :=
  ⟨h.sentence, hn, hwhole⟩

end Utterance

namespace Visit

variable {v : Visit} {us : List Utterance} {u : Utterance}

/-- The same visit, with other utterances. -/
def withUtterances (v : Visit) (us : List Utterance) : Visit := { v with utterances := us }

theorem Faithful.length_le (h : v.Faithful) :
    v.utterances.length ≤ v.dialogue.sentences.length := by
  by_contra hlt
  obtain ⟨raw, hraw, -⟩ := h.tells _ _ (List.getElem?_eq_getElem (Nat.not_le.1 hlt))
  rw [List.getElem?_eq_none (Nat.le_refl _)] at hraw
  cases hraw

/-- More of the last utterance is revealed. -/
theorem Faithful.goOn (h : v.Faithful) (hu : v.utterances = us ++ [u]) {n : Nat} {whole : Bool}
    (hn : u.revealed + n ≤ u.sentence.size)
    (hwhole : whole = true → u.revealed + n = u.sentence.size) :
    (v.withUtterances (us ++ [u.goOn n whole])).Faithful := by
  have hlast : v.utterances[us.length]? = some u := by rw [hu, List.getElem?_concat_length]
  have hbefore : ∀ {i : Nat} {x : Utterance}, us[i]? = some x → v.utterances[i]? = some x := by
    intro i x hx
    rw [hu, List.getElem?_append_left (List.getElem?_eq_some_iff.1 hx).1]
    exact hx
  refine ⟨by simp [withUtterances], fun i x hx => ?_, fun i x hx hi => ?_, fun i x hx hlate => ?_⟩
  · obtain hx | ⟨rfl, rfl⟩ := getElem?_concat_eq_some hx
    · exact h.tells i x (hbefore hx)
    · obtain ⟨raw, hraw, htells⟩ := h.tells _ u hlast
      exact ⟨raw, hraw, htells.goOn hn hwhole⟩
  · obtain hx | ⟨rfl, rfl⟩ := getElem?_concat_eq_some hx
    · exact h.whole i x (hbefore hx) (by simpa [hu, withUtterances] using hi)
    · simp [withUtterances] at hi
  · obtain hx | ⟨rfl, rfl⟩ := getElem?_concat_eq_some hx
    · exact h.late i x (hbefore hx) hlate
    · exact h.late _ u hlast hlate

theorem seen_goOn (hu : v.utterances = us ++ [u]) (hw : u.whole = false) (c : Channel) (n : Nat)
    (whole : Bool) :
    (v.withUtterances (us ++ [u.goOn n whole])).seen c =
      v.seen c ++ (.replicate n (.reveal c) ++ if whole then [.revealed c] else []) := by
  simp only [seen, withUtterances, hu, List.flatMap_append, List.flatMap_singleton,
    Utterance.seen_goOn hw, List.append_assoc]

/-- No reveal begins as one goes on. -/
theorem reveals_goOn (hu : v.utterances = us ++ [u]) (n : Nat) (whole : Bool) :
    (v.withUtterances (us ++ [u.goOn n whole])).reveals = v.reveals := by
  rw [reveals, reveals, hu, withUtterances, List.map_append, List.map_append]
  rfl

theorem seen_more (v : Visit) (c : Channel) (u : Utterance) :
    (v.withUtterances (v.utterances ++ [u])).seen c =
      v.seen c ++ u.seen c v.dialogue.speaker? := by
  simp only [seen, withUtterances, List.flatMap_append, List.flatMap_singleton, List.append_assoc]

theorem reveals_more (v : Visit) (u : Utterance) :
    (v.withUtterances (v.utterances ++ [u])).reveals = v.reveals ++ [(u.timings, u.reveal)] := by
  rw [reveals, reveals, withUtterances, List.map_append, List.map_singleton]

/-- Where the last utterance is whole, all are. -/
theorem Faithful.whole_of_getElem? (h : v.Faithful) (hu : v.utterances = us ++ [u])
    (hw : u.whole = true) {i : Nat} {x : Utterance} (hx : v.utterances[i]? = some x) :
    x.whole = true := by
  rw [hu] at hx
  obtain hx' | ⟨rfl, rfl⟩ := getElem?_concat_eq_some hx
  · refine h.whole i x (hu ▸ hx) ?_
    rw [hu, List.length_append]
    exact Nat.succ_lt_succ (List.getElem?_eq_some_iff.1 hx').1
  · exact hw

/-- The sentence that comes next is said. -/
theorem Faithful.more (h : v.Faithful) (hu : v.utterances = us ++ [u]) (hw : u.whole = true)
    {raw : String} {u' : Utterance} (hraw : v.dialogue.sentences[v.utterances.length]? = some raw)
    (htells : u'.Tells raw) (hlate : u'.late = false) :
    (v.withUtterances (v.utterances ++ [u'])).Faithful := by
  refine ⟨by simp [withUtterances], fun i x hx => ?_, fun i x hx hi => ?_, fun i x hx hlate' => ?_⟩
  · obtain hx | ⟨rfl, rfl⟩ := getElem?_concat_eq_some hx
    · exact h.tells i x hx
    · exact ⟨raw, hraw, htells⟩
  · obtain hx | ⟨rfl, rfl⟩ := getElem?_concat_eq_some hx
    · exact h.whole_of_getElem? hu hw hx
    · simp [withUtterances] at hi
  · obtain hx | ⟨rfl, rfl⟩ := getElem?_concat_eq_some hx
    · exact h.late i x hx hlate'
    · rw [hlate] at hlate'
      cases hlate'

/-- A visit of one utterance is faithful if it is the first sentence. -/
theorem Faithful.single {d : Dialogue} {move? anchor? : Option String} {raw : String}
    (hraw : d.sentences[0]? = some raw) (htells : u.Tells raw) :
    Faithful ⟨d, move?, anchor?, [u]⟩ := by
  have hzero : ∀ {i : Nat} {x : Utterance}, [u][i]? = some x → i = 0 ∧ x = u := by
    intro i x hx
    obtain hx | h := getElem?_concat_eq_some (show ([] ++ [u])[i]? = some x from hx)
    · cases hx
    · exact h
  refine ⟨by simp, fun i x hx => ?_, fun i x hx hi => ?_, fun i x hx _ => (hzero hx).1⟩
  · obtain ⟨rfl, rfl⟩ := hzero hx
    exact ⟨raw, hraw, htells⟩
  · obtain ⟨rfl, rfl⟩ := hzero hx
    simp at hi

/-- Where all sentences have been said and the last is whole, the visit is complete. -/
theorem Faithful.complete (h : v.Faithful) (hu : v.utterances = us ++ [u]) (hw : u.whole = true)
    (hlen : v.dialogue.sentences.length ≤ v.utterances.length) : v.Complete := by
  refine ⟨Nat.le_antisymm h.length_le hlen, fun x hx => ?_⟩
  obtain ⟨i, hi⟩ := List.mem_iff_getElem?.1 hx
  exact h.whole_of_getElem? hu hw hi

end Visit

namespace Itinerary

variable {script : Conversation} {vars : Variables} {past : List Visit} {v w : Visit}

theorem single (hstart : (script.startingPoint vars).value = some v.dialogue)
    (hmoves : v.Moves none) (hlate : v.late? = some false) (hf : v.Faithful) :
    Itinerary script vars [v] :=
  ⟨by simp, by simpa using ⟨hstart, hmoves, hlate⟩, by simpa using hf, .singleton v⟩

/-- The last visit goes on. -/
theorem withUtterances {us : List Utterance} (h : Itinerary script vars (past ++ [v]))
    (hf : (v.withUtterances us).Faithful) (hlate : (v.withUtterances us).late? = v.late?) :
    Itinerary script vars (past ++ [v.withUtterances us]) := by
  obtain ⟨-, hstarts, hfaithful, hleads⟩ := h
  obtain ⟨hpast, -, hlast⟩ := List.isChain_append.1 hleads
  refine ⟨by simp, fun x hx => ?_, ?_, List.isChain_append.2 ⟨hpast, .singleton _, ?_⟩⟩
  · rw [List.head?_append] at hx hstarts
    cases hhead : past.head? with
    | some y =>
      rw [hhead] at hx hstarts
      exact hstarts x hx
    | none =>
      rw [hhead] at hx hstarts
      cases hx
      obtain ⟨hstart, hmoves, hfirst⟩ := hstarts v rfl
      exact ⟨hstart, ⟨hmoves.move?, hmoves.anchor?⟩, hlate.trans hfirst⟩
  · intro x hx
    rcases List.mem_append.1 hx with hx | hx
    · exact hfaithful x (List.mem_append_left _ hx)
    · exact (List.mem_singleton.1 hx) ▸ hf
  · intro y hy x hx
    cases hx
    obtain ⟨hcomplete, hlink, hmoves, hfirst⟩ := hlast y hy v rfl
    exact ⟨hcomplete, hlink, ⟨hmoves.move?, hmoves.anchor?⟩, hlate.trans hfirst⟩

/-- Another visit follows. -/
theorem concat (h : Itinerary script vars (past ++ [v])) (hleads : v.Leads script w)
    (hf : w.Faithful) : Itinerary script vars (past ++ [v] ++ [w]) := by
  refine ⟨by simp, fun x hx => ?_, ?_, ?_⟩
  · refine h.starts x ?_
    rw [List.head?_append] at hx
    cases hhead : (past ++ [v]).head? with
    | some y => rwa [hhead] at hx
    | none => simp at hhead
  · intro x hx
    rcases List.mem_append.1 hx with hx | hx
    · exact h.faithful x hx
    · exact (List.mem_singleton.1 hx) ▸ hf
  · refine List.isChain_append.2 ⟨h.leads, .singleton w, fun y hy x hx => ?_⟩
    rw [List.getLast?_concat] at hy
    cases hy
    cases hx
    exact hleads

end Itinerary

end Colloquy
