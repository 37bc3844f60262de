import Colloquy.Proofs.Script.Reach
import Mathlib.Data.List.Flatten

/-!
# Proofs/Script/Paths — the dialogues that no path leads to

The ids of a script are the nodes of a graph, with an edge from a dialogue to each id that it or a
choice of it names as the next (`Conversation.Edge`). An id is attained if a path of edges leads to
it from a starting point. In a script that is accepted the ids that are listed as unreachable are
those of the dialogues that are not attained, in ascending order and each of them once
(`Conversation.unreachable_spec`). The search for them may have an id pending many times, but puts
one there only from a starting point or when it crosses off the dialogue that links to it, so that
it takes no more rounds than there are starting points and links (`searches_leftover`).
-/

namespace Colloquy

/-! ## How long the search takes -/

/-- The search goes from the ids that remain and those that are pending to what is left, in so many
rounds, each of which deals with one pending id. -/
inductive Searches (links : Int32 → List Int32) :
    List Int32 → List Int32 → Nat → List Int32 → Prop
  | done {remaining : List Int32} : Searches links remaining [] 0 remaining
  | fresh {id : Int32} {remaining pending left : List Int32} {n : Nat} (h : id ∈ remaining)
    (hrest : Searches links (crossOff id remaining) (links id ++ pending) n left) :
    Searches links remaining (id :: pending) (n + 1) left
  | stale {id : Int32} {remaining pending left : List Int32} {n : Nat} (h : id ∉ remaining)
    (hrest : Searches links remaining pending n left) :
    Searches links remaining (id :: pending) (n + 1) left

section

variable (links : Int32 → List Int32)

/-- An id that is crossed off takes its links with it. -/
theorem length_links_crossOff_le {id : Int32} {ids : List Int32} (h : id ∈ ids) :
    (links id).length + ((crossOff id ids).flatMap links).length ≤ (ids.flatMap links).length := by
  obtain ⟨before, after, rfl⟩ := List.append_of_mem h
  have hcross : crossOff id (before ++ id :: after) = crossOff id before ++ crossOff id after := by
    simp [crossOff]
  have hle (ids : List Int32) :
      ((crossOff id ids).flatMap links).length ≤ (ids.flatMap links).length :=
    (List.filter_sublist.flatMap links).length_le
  have hbefore := hle before
  have hafter := hle after
  simp only [hcross, List.flatMap_append, List.flatMap_cons, List.length_append]
  omega

/-- **The search comes to its end**, in at most one round for each pending id and each link of an
id that remains. -/
theorem searches_leftover (remaining pending : List Int32) :
    ∃ n ≤ pending.length + (remaining.flatMap links).length,
      Searches links remaining pending n (leftover links remaining pending) := by
  induction remaining, pending using leftover.induct links with
  | case1 remaining =>
    rw [leftover]
    exact ⟨0, Nat.zero_le _, .done⟩
  | case2 remaining id pending hid ih =>
    obtain ⟨n, hn, hrest⟩ := ih
    rw [leftover, if_pos hid]
    have hlinks := length_links_crossOff_le links hid
    refine ⟨n + 1, ?_, .fresh hid hrest⟩
    simp only [List.length_append, List.length_cons] at hn ⊢
    omega
  | case3 remaining id pending hid ih =>
    obtain ⟨n, hn, hrest⟩ := ih
    rw [leftover, if_neg hid]
    refine ⟨n + 1, ?_, .stale hid hrest⟩
    rw [List.length_cons]
    omega

variable {links} in
/-- Nothing is added to what remains. -/
theorem leftover_sublist (remaining pending : List Int32) :
    (leftover links remaining pending).Sublist remaining := by
  induction remaining, pending using leftover.induct links with
  | case1 remaining =>
    rw [leftover]
  | case2 remaining id pending hid ih =>
    rw [leftover, if_pos hid]
    exact ih.trans List.filter_sublist
  | case3 remaining id pending hid ih =>
    rw [leftover, if_neg hid]
    exact ih

end

/-! ## The graph of a script -/

theorem linkOf_eq_some_iff {next id : Int32} : linkOf next = some id ↔ id ≠ noId ∧ next = id := by
  rw [linkOf]
  split_ifs with h
  · refine iff_of_false not_false ?_
    rintro ⟨hne, rfl⟩
    exact hne h
  · rw [Option.some_inj]
    refine ⟨?_, And.right⟩
    rintro rfl
    exact ⟨h, rfl⟩

/-- A dialogue links to the ids that it and its choices name as the next, but for the one that
stands for no dialogue. -/
theorem Dialogue.mem_links {d : Dialogue} {id : Int32} :
    id ∈ d.links ↔ id ≠ noId ∧ (d.nextId = id ∨ ∃ o ∈ d.choices, o.nextId = id) := by
  simp only [links, List.mem_append, Option.mem_toList, Dialogue.next?, List.mem_filterMap,
    Choice.next?, linkOf_eq_some_iff]
  constructor
  · rintro (⟨hne, h⟩ | ⟨o, ho, hne, h⟩)
    · exact ⟨hne, .inl h⟩
    · exact ⟨hne, .inr ⟨o, ho, h⟩⟩
  · rintro ⟨hne, h | ⟨o, ho, h⟩⟩
    · exact .inl ⟨hne, h⟩
    · exact .inr ⟨o, ho, hne, h⟩

namespace Conversation

/-- An edge leads from the id of a dialogue to each id that the dialogue or a choice of it names as
the next. -/
def Edge (c : Conversation) (a b : Int32) : Prop :=
  b ≠ noId ∧ ∃ d ∈ c.dialogues, d.id = a ∧ (d.nextId = b ∨ ∃ o ∈ d.choices, o.nextId = b)

/-- A path of edges leads to an id from a starting point. -/
def Attains (c : Conversation) (id : Int32) : Prop :=
  ∃ s ∈ c.dialogues, s.startingPoint = true ∧ Relation.ReflTransGen c.Edge s.id id

variable {c : Conversation} {d : Dialogue}

theorem edge_iff {a b : Int32} : c.Edge a b ↔ ∃ d ∈ c.dialogues, d.id = a ∧ b ∈ d.links := by
  simp only [Edge, Dialogue.mem_links]
  exact ⟨fun ⟨hne, d, hd, hid, h⟩ => ⟨d, hd, hid, hne, h⟩,
    fun ⟨d, hd, hid, hne, h⟩ => ⟨hne, d, hd, hid, h⟩⟩

theorem Reached.attains (h : c.Reached Dialogue.links d) : c.Attains d.id := by
  induction h with
  | start hd hs => exact ⟨_, hd, hs, .refl⟩
  | move hd hid he ih =>
    obtain ⟨s, hs, hstart, hpath⟩ := ih
    rw [(mem_of_dialogue? he).2]
    exact ⟨s, hs, hstart, hpath.tail (edge_iff.2 ⟨_, hd.mem_dialogues, rfl, hid⟩)⟩

/-- A path of edges is followed from dialogue to dialogue. -/
theorem reached_of_attains (hids : (c.dialogues.map (·.id)).Nodup) {id : Int32} (h : c.Attains id) :
    ∀ d ∈ c.dialogues, d.id = id → c.Reached Dialogue.links d := by
  obtain ⟨s, hs, hstart, hpath⟩ := h
  induction hpath with
  | refl =>
    rintro d hd hid
    rw [List.inj_on_of_nodup_map hids hd hs hid]
    exact .start hs hstart
  | tail _ hedge ih =>
    rintro e he rfl
    obtain ⟨d, hd, hid, hlink⟩ := edge_iff.1 hedge
    exact .move (ih d hd hid) hlink (dialogue?_id hids he)

/-- The ids that are listed are those that the search leaves. -/
theorem unreachable_perm :
    c.unreachable.Perm (leftover c.linksOf (c.dialogues.map (·.id)) c.startingIds) :=
  List.mergeSort_perm ..

/-- They are listed in order. -/
theorem pairwise_unreachable (hids : (c.dialogues.map (·.id)).Nodup) :
    c.unreachable.Pairwise (· < ·) := by
  have hle : c.unreachable.Pairwise (decide <| · ≤ ·) := by
    refine List.pairwise_mergeSort (fun a b d hab hbd => ?_) (fun a b => ?_) _
    · exact decide_eq_true (Int32.le_trans (of_decide_eq_true hab) (of_decide_eq_true hbd))
    · rw [← Bool.decide_or]
      exact decide_eq_true (Int32.le_total a b)
  have hnodup : c.unreachable.Nodup :=
    unreachable_perm.nodup_iff.2 ((leftover_sublist _ _).nodup hids)
  exact (hle.and hnodup).imp fun ⟨hab, hne⟩ => Int32.lt_of_le_of_ne (of_decide_eq_true hab) hne

/-- **In a script that is accepted, the ids listed as unreachable are those of the dialogues that no
path leads to**, in ascending order and each once. The search for them takes no more rounds than
there are starting points and links. -/
theorem unreachable_spec (h : c.audit.result = .ok ()) :
    (∃ n ≤ c.startingIds.length + (c.dialogues.flatMap Dialogue.links).length, ∃ left,
      Searches c.linksOf (c.dialogues.map (·.id)) c.startingIds n left ∧
        c.unreachable.Perm left) ∧
    c.unreachable.Pairwise (· < ·) ∧
    ∀ id, id ∈ c.unreachable ↔ id ∈ c.dialogues.map (·.id) ∧ ¬ c.Attains id := by
  have hids : (c.dialogues.map (·.id)).Nodup := ((audit_accepts_iff c).1 h).nodup_ids
  refine ⟨?_, pairwise_unreachable hids, fun id => ?_⟩
  · obtain ⟨n, hn, hsearch⟩ :=
      searches_leftover c.linksOf (c.dialogues.map (·.id)) c.startingIds
    have hlinks : (c.dialogues.map (·.id)).flatMap c.linksOf =
        c.dialogues.flatMap Dialogue.links := by
      rw [List.flatMap_map]
      exact List.flatMap_congr fun d hd => linksOf_id hids hd
    rw [hlinks] at hn
    exact ⟨n, hn, _, hsearch, unreachable_perm⟩
  · have hmem : id ∈ c.unreachable → id ∈ c.dialogues.map (·.id) := fun hid =>
      mem_of_mem_leftover _ _ (unreachable_perm.mem_iff.1 hid)
    refine ⟨fun hid => ⟨hmem hid, fun hattains => ?_⟩, fun ⟨hid, hnot⟩ => ?_⟩
    · obtain ⟨d, hd, heq⟩ := List.mem_map.1 (hmem hid)
      refine (mem_unreachable_iff hids hd).1 (heq ▸ hid) ?_
      exact reached_of_attains hids hattains d hd heq
    · obtain ⟨d, hd, rfl⟩ := List.mem_map.1 hid
      exact (mem_unreachable_iff hids hd).2 fun hreached => hnot hreached.attains

/-- A script with a circle that is reached and one that is not, dialogues that lead to themselves,
and one whose id stands for no dialogue. -/
def circular : Conversation where
  dialogues := [
    { id := 5, nextId := 4, sentences := ["Five."] },
    { id := 4, nextId := 5, sentences := ["Four."] },
    { id := 0, nextId := 1, sentences := ["Zero."], startingPoint := true },
    { id := 1, sentences := ["One."]
      choices := [⟨"Again.", 1, []⟩, ⟨"Back.", 0, []⟩, ⟨"On.", 2, []⟩] },
    { id := -1, nextId := 2, sentences := ["Minus one."] },
    { id := 2, nextId := 2, sentences := ["Two."] }]

theorem unreachable_spec_circular :
    circular.audit.result = .ok () ∧ circular.unreachable = [-1, 4, 5] ∧
      (∀ id, id ∈ circular.unreachable ↔
        id ∈ circular.dialogues.map (·.id) ∧ ¬ circular.Attains id) := by
  have haudit : circular.audit.result = .ok () := by decide +kernel
  have hleft : leftover circular.linksOf (circular.dialogues.map (·.id)) circular.startingIds =
      [5, 4, -1] := by
    simp [leftover, circular, linksOf, dialogue?, startingIds, crossOff, Dialogue.links,
      Dialogue.next?, Choice.next?, linkOf, noId]
  have hperm : circular.unreachable.Perm [-1, 4, 5] := by
    refine unreachable_perm.trans ?_
    rw [hleft]
    decide
  obtain ⟨-, hsorted, hmem⟩ := unreachable_spec haudit
  have hids : circular.unreachable = [-1, 4, 5] :=
    hperm.eq_of_pairwise (fun _ _ _ _ hab hba => absurd hab (Int32.lt_asymm hba)) hsorted
      (by decide)
  exact ⟨haudit, hids, hmem⟩

end Conversation

end Colloquy
