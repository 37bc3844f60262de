import Colloquy.Conversation.Reach
import Colloquy.Proofs.Script.Stock
import Mathlib.Data.List.Nodup
import Mathlib.Logic.Relation

/-!
# Proofs/Script/Reach — which dialogues are said to be unreachable

A dialogue is **reached** by some moves if it is a starting point, or if one that is reached moves
on to it (`Conversation.Reached`). The search for unreachable dialogues crosses off what it comes
to; what it has crossed off is closed under links (`not_mem_leftover_of_link`) and is no more than
what is closed under links has to hold (`of_not_mem_leftover`). So it finds exactly the dialogues
that are not reached by links (`Conversation.mem_unreachable_iff`).

Performers do not follow all links: a link is **idle** beside choices, and so are choices in the
background. What only idle links lead to is never performed, and is not found.
-/

namespace Colloquy

/-! ## The search -/

section

variable {links : Int32 → List Int32}

theorem mem_of_mem_leftover {id : Int32} (remaining pending : List Int32) :
    id ∈ leftover links remaining pending → id ∈ remaining := by
  induction remaining, pending using leftover.induct links with
  | case1 remaining =>
    rw [leftover]
    exact fun h => h
  | case2 remaining p pending hp ih =>
    rw [leftover, if_pos hp]
    exact fun h => List.mem_of_mem_filter (ih h)
  | case3 remaining p pending hp ih =>
    rw [leftover, if_neg hp]
    exact ih

/-- What the search goes to is crossed off. -/
theorem not_mem_leftover_of_pending {id : Int32} (remaining pending : List Int32)
    (h : id ∈ pending) : id ∉ leftover links remaining pending := by
  induction remaining, pending using leftover.induct links with
  | case1 => cases h
  | case2 remaining p pending hp ih =>
    rw [leftover, if_pos hp]
    rcases List.mem_cons.1 h with rfl | h
    · intro hmem
      have := mem_of_mem_leftover _ _ hmem
      simp [crossOff] at this
    · exact ih (List.mem_append_right _ h)
  | case3 remaining p pending hp ih =>
    rw [leftover, if_neg hp]
    rcases List.mem_cons.1 h with rfl | h
    · exact fun hmem => hp (mem_of_mem_leftover _ _ hmem)
    · exact ih h

/-- **What is crossed off is closed under links.** -/
theorem not_mem_leftover_of_link {a b : Int32} (remaining pending : List Int32)
    (ha : a ∈ remaining) (hleft : a ∉ leftover links remaining pending) (hb : b ∈ links a) :
    b ∉ leftover links remaining pending := by
  induction remaining, pending using leftover.induct links with
  | case1 =>
    rw [leftover] at hleft
    exact absurd ha hleft
  | case2 remaining p pending hp ih =>
    rw [leftover, if_pos hp] at hleft ⊢
    by_cases hap : a = p
    · subst hap
      exact not_mem_leftover_of_pending _ _ (List.mem_append_left _ hb)
    · exact ih (List.mem_filter.2 ⟨ha, decide_eq_true hap⟩) hleft
  | case3 remaining p pending hp ih =>
    rw [leftover, if_neg hp] at hleft ⊢
    exact ih ha hleft

/-- **No more is crossed off** than is in whatever holds what the search starts from and is closed
under links. -/
theorem of_not_mem_leftover {P : Int32 → Prop} (hP : ∀ a, P a → ∀ b ∈ links a, P b) {id : Int32}
    (remaining pending : List Int32) (hpending : ∀ p ∈ pending, P p) (hid : id ∈ remaining)
    (hleft : id ∉ leftover links remaining pending) : P id := by
  induction remaining, pending using leftover.induct links with
  | case1 =>
    rw [leftover] at hleft
    exact absurd hid hleft
  | case2 remaining p pending hp ih =>
    rw [leftover, if_pos hp] at hleft
    obtain ⟨hpp, hrest⟩ := List.forall_mem_cons.1 hpending
    by_cases hidp : id = p
    · exact hidp ▸ hpp
    · refine ih (fun b hb => ?_) (List.mem_filter.2 ⟨hid, decide_eq_true hidp⟩) hleft
      exact (List.mem_append.1 hb).elim (hP p hpp b) (hrest b)
  | case3 remaining p pending hp ih =>
    rw [leftover, if_neg hp] at hleft
    exact ih (List.forall_mem_cons.1 hpending).2 hid hleft

end

namespace Conversation

/-! ## What is reached -/

/-- The dialogues that are reached in a script by some moves. -/
inductive Reached (c : Conversation) (moves : Dialogue → List Int32) : Dialogue → Prop
  | start {d : Dialogue} (hd : d ∈ c.dialogues) (hs : d.startingPoint = true) : Reached c moves d
  | move {d e : Dialogue} {id : Int32} (hd : Reached c moves d) (hid : id ∈ moves d)
    (he : c.dialogue? id = some e) : Reached c moves e

variable {c : Conversation} {moves moves' : Dialogue → List Int32} {d e : Dialogue}

theorem Reached.mem_dialogues (h : c.Reached moves d) : d ∈ c.dialogues := by
  cases h with
  | start hd _ => exact hd
  | move _ _ he => exact (mem_of_dialogue? he).1

/-- More is reached by more moves. -/
theorem Reached.mono (hmoves : ∀ d, moves d ⊆ moves' d) (h : c.Reached moves d) :
    c.Reached moves' d := by
  induction h with
  | start hd hs => exact .start hd hs
  | move _ hid he ih => exact .move ih (hmoves _ hid) he

/-- Where ids are unique, a dialogue is the one of its id. -/
theorem dialogue?_id (hids : (c.dialogues.map (·.id)).Nodup) (hd : d ∈ c.dialogues) :
    c.dialogue? d.id = some d := by
  obtain ⟨e, he⟩ := exists_dialogue?_of_mem (List.mem_map_of_mem hd)
  obtain ⟨hmem, hid⟩ := mem_of_dialogue? he
  rw [he, List.inj_on_of_nodup_map hids hmem hd hid]

theorem linksOf_id (hids : (c.dialogues.map (·.id)).Nodup) (hd : d ∈ c.dialogues) :
    c.linksOf d.id = d.links := by
  rw [linksOf, dialogue?_id hids hd]

theorem Reached.not_mem_leftover (hids : (c.dialogues.map (·.id)).Nodup)
    (h : c.Reached Dialogue.links d) :
    d.id ∉ leftover c.linksOf (c.dialogues.map (·.id)) c.startingIds := by
  induction h with
  | start hd hs =>
    refine not_mem_leftover_of_pending _ _ (List.mem_map_of_mem ?_)
    exact List.mem_filter.2 ⟨hd, hs⟩
  | move hd hid he ih =>
    rw [(mem_of_dialogue? he).2]
    refine not_mem_leftover_of_link _ _ (List.mem_map_of_mem hd.mem_dialogues) ih ?_
    rwa [linksOf_id hids hd.mem_dialogues]

theorem reached_of_not_mem_leftover (hids : (c.dialogues.map (·.id)).Nodup) (hd : d ∈ c.dialogues)
    (h : d.id ∉ leftover c.linksOf (c.dialogues.map (·.id)) c.startingIds) :
    c.Reached Dialogue.links d := by
  have hP : ∀ a, (∀ e, c.dialogue? a = some e → c.Reached Dialogue.links e) →
      ∀ b ∈ c.linksOf a, ∀ e, c.dialogue? b = some e → c.Reached Dialogue.links e := by
    intro a ha b hb e he
    unfold linksOf at hb
    split at hb
    · exact .move (ha _ ‹_›) hb he
    · cases hb
  refine of_not_mem_leftover hP _ _ ?_ (List.mem_map_of_mem hd) h d (dialogue?_id hids hd)
  intro p hp e he
  obtain ⟨s, hs, rfl⟩ := List.mem_map.1 hp
  obtain ⟨hmem, hstart⟩ := List.mem_filter.1 hs
  cases (dialogue?_id hids hmem).symm.trans he
  exact .start hmem hstart

/-- **A dialogue is said to be unreachable if links do not reach it**, and only then. -/
theorem mem_unreachable_iff (hids : (c.dialogues.map (·.id)).Nodup) (hd : d ∈ c.dialogues) :
    d.id ∈ c.unreachable ↔ ¬ c.Reached Dialogue.links d := by
  rw [unreachable, List.mem_mergeSort]
  constructor
  · exact fun h hr => hr.not_mem_leftover hids h
  · exact fun hr => by_contra fun h => hr (reached_of_not_mem_leftover hids hd h)

end Conversation

/-! ## What performers can reach -/

namespace Dialogue

/-- The dialogues that a performer may go on to from a dialogue: those that its choices lead to, if
it has any, and else the next one. Choices are ignored in the background. -/
def ways (background : Bool) (d : Dialogue) : List Int32 :=
  if background = true ∨ d.choices = [] then d.next?.toList else d.choices.filterMap Choice.next?

/-- The dialogues that a dialogue links to without a performer ever taking notice. -/
def idleLinks (background : Bool) (d : Dialogue) : List Int32 :=
  if background = true then d.choices.filterMap Choice.next?
  else if d.choices = [] then [] else d.next?.toList

/-- A link is one that a performer follows, or it is idle. -/
theorem mem_links_iff {background : Bool} {d : Dialogue} {id : Int32} :
    id ∈ d.links ↔ id ∈ d.ways background ∨ id ∈ d.idleLinks background := by
  rw [links, ways, idleLinks, List.mem_append]
  cases background with
  | true => simp
  | false =>
    by_cases hc : d.choices = []
    · simp [hc]
    · simp only [Bool.false_eq_true, false_or, if_false, if_neg hc]
      exact or_comm

theorem ways_subset_links (background : Bool) (d : Dialogue) : d.ways background ⊆ d.links :=
  fun _ h => mem_links_iff.2 (.inl h)

end Dialogue

namespace Conversation

/-- A dialogue links to another, by its own link or by that of a choice. -/
def Links (c : Conversation) (d e : Dialogue) : Prop := ∃ id ∈ d.links, c.dialogue? id = some e

/-- An idle link leads to a dialogue: it is in one that is performed, and from where it goes links
lead on to the dialogue. -/
def IdlyLed (c : Conversation) (d : Dialogue) : Prop :=
  ∃ (e f : Dialogue) (id : Int32), c.Reached (Dialogue.ways c.background) e ∧
    id ∈ e.idleLinks c.background ∧ c.dialogue? id = some f ∧ Relation.ReflTransGen c.Links f d

variable {c : Conversation} {d e : Dialogue}

theorem Reached.of_links (h : Relation.ReflTransGen c.Links d e) (hd : c.Reached Dialogue.links d) :
    c.Reached Dialogue.links e := by
  induction h with
  | refl => exact hd
  | tail _ hlink ih =>
    obtain ⟨id, hid, he⟩ := hlink
    exact .move ih hid he

/-- What links reach is performed, or idle links lead to it. -/
theorem Reached.ways_or_idlyLed (h : c.Reached Dialogue.links d) :
    c.Reached (Dialogue.ways c.background) d ∨ c.IdlyLed d := by
  induction h with
  | start hd hs => exact .inl (.start hd hs)
  | @move d e id hd hid he ih =>
    obtain hway | ⟨f, g, id', hf, hid', hg, hpath⟩ := ih
    · rcases Dialogue.mem_links_iff.1 hid with hid | hid
      · exact .inl (.move hway hid he)
      · exact .inr ⟨d, e, id, hway, hid, he, .refl⟩
    · exact .inr ⟨f, g, id', hf, hid', hg, hpath.tail ⟨id, hid, he⟩⟩

theorem IdlyLed.reached (h : c.IdlyLed d) : c.Reached Dialogue.links d := by
  obtain ⟨e, f, id, he, hid, hf, hpath⟩ := h
  refine Reached.of_links hpath (.move (he.mono (Dialogue.ways_subset_links _)) ?_ hf)
  exact Dialogue.mem_links_iff.2 (.inr hid)

/-- What is performed is not said to be unreachable. -/
theorem Reached.not_mem_unreachable (h : c.audit.result = .ok ()) {background : Bool}
    (hd : c.Reached (Dialogue.ways background) d) : d.id ∉ c.unreachable := by
  intro hmem
  refine (mem_unreachable_iff ((audit_accepts_iff c).1 h).nodup_ids hd.mem_dialogues).1 hmem ?_
  exact hd.mono (Dialogue.ways_subset_links background)

/-- **What is never performed is said to be unreachable, unless idle links lead to it.** Of these,
a dialogue links to one beside choices of its own, or a choice does in the background. -/
theorem mem_unreachable_iff_of_not_reached (h : c.audit.result = .ok ()) (hd : d ∈ c.dialogues)
    (hnot : ¬ c.Reached (Dialogue.ways c.background) d) : d.id ∈ c.unreachable ↔ ¬ c.IdlyLed d := by
  rw [mem_unreachable_iff ((audit_accepts_iff c).1 h).nodup_ids hd]
  exact not_congr ⟨fun hr => hr.ways_or_idlyLed.resolve_left hnot, IdlyLed.reached⟩

/-- A dialogue with a choice that leads to one dialogue, and a link to another. -/
def forked (background : Bool) : Conversation where
  background
  dialogues := [
    { id := 0, nextId := 1, sentences := ["Left or right?"], startingPoint := true
      choices := [⟨"Right.", 2, []⟩] },
    { id := 1, sentences := ["Left it is."] },
    { id := 2, sentences := ["Right it is."] }]

theorem audit_forked (background : Bool) : (forked background).audit.result = .ok () := by
  cases background <;> decide +kernel

/-- The dialogue that the link leads to is not performed beside the choice, and the one that the
choice leads to is not performed in the background. -/
theorem not_reached_forked (background : Bool)
    (hd : (forked background).Reached (Dialogue.ways background) d) :
    d.id ≠ if background then 2 else 1 := by
  induction hd with
  | start hd hs =>
    simp only [forked, List.mem_cons, List.not_mem_nil, or_false] at hd
    obtain rfl | rfl | rfl := hd
    · cases background <;> decide
    · cases hs
    · cases hs
  | move hd hid he ih =>
    rw [(mem_of_dialogue? he).2]
    have hmem := hd.mem_dialogues
    simp only [forked, List.mem_cons, List.not_mem_nil, or_false] at hmem
    rintro rfl
    cases background <;> obtain rfl | rfl | rfl := hmem <;> revert hid <;> decide

/-- Links reach both of them. -/
theorem not_mem_unreachable_forked (background : Bool) {id : Int32} (hid : id = 1 ∨ id = 2)
    (hd : (forked background).dialogue? id = some d) : d.id ∉ (forked background).unreachable := by
  have hids : ((forked background).dialogues.map (·.id)).Nodup :=
    ((audit_accepts_iff _).1 (audit_forked background)).nodup_ids
  have hstart : (forked background).Reached Dialogue.links _ := .start (List.mem_cons_self ..) rfl
  refine fun h => (mem_unreachable_iff hids (mem_of_dialogue? hd).1).1 h (.move hstart ?_ hd)
  rcases hid with rfl | rfl <;> decide

theorem mem_unreachable_iff_left :
    let left : Dialogue := { id := 1, sentences := ["Left it is."] }
    (forked false).audit.result = .ok () ∧ left ∈ (forked false).dialogues ∧
      ¬ (forked false).Reached (Dialogue.ways (forked false).background) left ∧
        (left.id ∈ (forked false).unreachable ↔ ¬ (forked false).IdlyLed left) := by
  intro left
  have hmem : left ∈ (forked false).dialogues := by decide
  have hnot : ¬ (forked false).Reached (Dialogue.ways (forked false).background) left :=
    fun h => not_reached_forked false h rfl
  exact ⟨audit_forked false, hmem, hnot,
    mem_unreachable_iff_of_not_reached (audit_forked false) hmem hnot⟩

/-- Neither the dialogue beside the choice nor the one behind a choice in the background is ever
performed, and neither is found. -/
theorem forked_not_found :
    let left : Dialogue := { id := 1, sentences := ["Left it is."] }
    let right : Dialogue := { id := 2, sentences := ["Right it is."] }
    ((forked false).audit.result = .ok () ∧ left ∈ (forked false).dialogues ∧
      left.startingPoint = false ∧ ¬ (forked false).Reached (Dialogue.ways false) left ∧
        left.id ∉ (forked false).unreachable) ∧
    ((forked true).audit.result = .ok () ∧ right ∈ (forked true).dialogues ∧
      right.startingPoint = false ∧ ¬ (forked true).Reached (Dialogue.ways true) right ∧
        right.id ∉ (forked true).unreachable) := by
  intro left right
  exact ⟨⟨audit_forked false, by decide, rfl, fun h => not_reached_forked false h rfl,
      not_mem_unreachable_forked false (.inl rfl) (by decide)⟩,
    audit_forked true, by decide, rfl, fun h => not_reached_forked true h rfl,
      not_mem_unreachable_forked true (.inr rfl) (by decide)⟩

end Conversation

end Colloquy
