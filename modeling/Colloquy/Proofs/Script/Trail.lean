import Colloquy.Conversation.Trail
import Mathlib.Data.List.Basic
import Mathlib.Data.Set.Finite.List
import Mathlib.Logic.Relation
import Mathlib.Order.WellFounded

/-!
# Proofs/Script/Trail — a trail ends unless it meets a circle

Going on from dialogue to dialogue is told here without a bound on the number of links
(`Conversation.Arrives`). It ends if no dialogue that is passed comes round to itself, and only
then: there are finitely many dialogues, and where none is passed twice the way gets shorter with
each. The bound that `Conversation.trail?` puts on the links is never met but on a circle.
-/

namespace Colloquy

open Relation

namespace Conversation

variable {c : Conversation} {outlook : Dialogue → Outlook} {d e f : Dialogue} {t u : Trail}

/-- A dialogue is passed, and its link leads to another. -/
def Follows (c : Conversation) (outlook : Dialogue → Outlook) (d e : Dialogue) : Prop :=
  ∃ id, outlook d = .link id ∧ c.dialogue? id = some e

theorem Follows.unique (he : c.Follows outlook d e) (hf : c.Follows outlook d f) : e = f := by
  obtain ⟨id, hid, he⟩ := he
  obtain ⟨id', hid', hf⟩ := hf
  cases hid.symm.trans hid'
  exact Option.some.inj (he.symm.trans hf)

theorem Follows.mem (h : c.Follows outlook d e) : e ∈ c.dialogues :=
  let ⟨_, _, he⟩ := h
  (mem_of_dialogue? he).1

theorem mem_of_reflTransGen (h : ReflTransGen (c.Follows outlook) d e) (hd : d ∈ c.dialogues) :
    e ∈ c.dialogues := by
  cases h with
  | refl => exact hd
  | tail _ he => exact he.mem

/-- The dialogues that are passed from a dialogue on come to one that comes round to itself. -/
def Circles (c : Conversation) (outlook : Dialogue → Outlook) (d : Dialogue) : Prop :=
  ∃ e, ReflTransGen (c.Follows outlook) d e ∧ TransGen (c.Follows outlook) e e

/-- The way from a dialogue on, however long it is. -/
inductive Arrives (c : Conversation) (outlook : Dialogue → Outlook) : Dialogue → Trail → Prop
  | stay {d : Dialogue} (h : ∀ id, outlook d ≠ .link id) : Arrives c outlook d ⟨[], .at d⟩
  | lost {d : Dialogue} {id : Int32} (h : outlook d = .link id) (hno : c.dialogue? id = none) :
    Arrives c outlook d ⟨[d], .missing id⟩
  | pass {d e : Dialogue} {t : Trail} (h : c.Follows outlook d e) (ht : Arrives c outlook e t) :
    Arrives c outlook d (t.cons d)

/-! ## Ways that end -/

/-- A way goes on as the way of the dialogue that follows. -/
theorem Arrives.of_follows (ht : c.Arrives outlook d t) (h : c.Follows outlook d e) :
    ∃ u, c.Arrives outlook e u ∧ t = u.cons d := by
  obtain ⟨id, hid, he⟩ := h
  cases ht with
  | stay hstay => exact absurd hid (hstay id)
  | lost hid' hno =>
    cases hid.symm.trans hid'
    cases hno.symm.trans he
  | pass hf hu =>
    obtain rfl := hf.unique ⟨id, hid, he⟩
    exact ⟨_, hu, rfl⟩

theorem Arrives.unique (ht : c.Arrives outlook d t) (hu : c.Arrives outlook d u) : t = u := by
  induction ht generalizing u with
  | stay h =>
    cases hu with
    | stay => rfl
    | lost h' => exact absurd h' (h _)
    | pass hf =>
      obtain ⟨id, hid, -⟩ := hf
      exact absurd hid (h id)
  | lost h hno =>
    cases hu with
    | stay h' => exact absurd h (h' _)
    | lost h' =>
      cases h.symm.trans h'
      rfl
    | pass hf =>
      obtain ⟨id, hid, he⟩ := hf
      cases h.symm.trans hid
      cases hno.symm.trans he
  | pass hf _ ih =>
    obtain ⟨v, hv, rfl⟩ := hu.of_follows hf
    rw [ih hv]

/-- The further on, the shorter the way. -/
theorem Arrives.of_transGen (h : TransGen (c.Follows outlook) d e) (ht : c.Arrives outlook d t) :
    ∃ u, c.Arrives outlook e u ∧ u.passed.length < t.passed.length := by
  induction h with
  | single hf =>
    obtain ⟨u, hu, rfl⟩ := ht.of_follows hf
    exact ⟨u, hu, Nat.lt_succ_self _⟩
  | tail _ hf ih =>
    obtain ⟨u, hu, hlt⟩ := ih
    obtain ⟨v, hv, rfl⟩ := hu.of_follows hf
    exact ⟨v, hv, (Nat.lt_succ_self _).trans hlt⟩

/-- No way comes round to where it was. -/
theorem Arrives.not_transGen (ht : c.Arrives outlook d t) : ¬ TransGen (c.Follows outlook) d d := by
  intro h
  obtain ⟨u, hu, hlt⟩ := ht.of_transGen h
  rw [ht.unique hu] at hlt
  exact Nat.lt_irrefl _ hlt

theorem Arrives.not_circles (ht : c.Arrives outlook d t) : ¬ c.Circles outlook d := by
  rintro ⟨e, hde, hee⟩
  rcases reflTransGen_iff_eq_or_transGen.1 hde with rfl | hde
  · exact ht.not_transGen hee
  · obtain ⟨u, hu, -⟩ := ht.of_transGen hde
    exact hu.not_transGen hee

/-- Whatever is passed is met on the way. -/
theorem Arrives.reflTransGen_of_mem (ht : c.Arrives outlook d t) :
    ∀ e ∈ t.passed, ReflTransGen (c.Follows outlook) d e := by
  induction ht with
  | stay => exact List.forall_mem_nil _
  | lost => exact List.forall_mem_singleton.2 .refl
  | pass hf _ ih => exact List.forall_mem_cons.2 ⟨.refl, fun e he => .head hf (ih e he)⟩

/-- Whatever is passed has a link to follow. -/
theorem Arrives.link_of_mem (ht : c.Arrives outlook d t) :
    ∀ e ∈ t.passed, ∃ id, outlook e = .link id := by
  induction ht with
  | stay => exact List.forall_mem_nil _
  | lost h => exact List.forall_mem_singleton.2 ⟨_, h⟩
  | pass hf _ ih =>
    obtain ⟨id, hid, -⟩ := hf
    exact List.forall_mem_cons.2 ⟨⟨id, hid⟩, ih⟩

/-- Nothing is passed twice. -/
theorem Arrives.nodup_passed (ht : c.Arrives outlook d t) : t.passed.Nodup := by
  induction ht with
  | stay => exact List.nodup_nil
  | lost => exact List.nodup_singleton _
  | pass hf hu ih =>
    refine List.nodup_cons.2 ⟨fun hmem => ?_, ih⟩
    exact (Arrives.pass hf hu).not_transGen (.head' hf (hu.reflTransGen_of_mem _ hmem))

theorem Arrives.passed_subset (ht : c.Arrives outlook d t) (hd : d ∈ c.dialogues) :
    t.passed ⊆ c.dialogues :=
  fun e he => mem_of_reflTransGen (ht.reflTransGen_of_mem e he) hd

/-! ## Whether a way ends -/

/-- The dialogues that are ahead. -/
abbrev Ahead (c : Conversation) (outlook : Dialogue → Outlook) (d : Dialogue) :=
  {e // ReflTransGen (c.Follows outlook) d e}

theorem finite_ahead (c : Conversation) (outlook : Dialogue → Outlook) (d : Dialogue) :
    Finite (c.Ahead outlook d) := by
  refine (List.finite_toSet (d :: c.dialogues)).subset fun e he => ?_
  rcases reflTransGen_iff_eq_or_transGen.1 he with rfl | he
  · exact List.mem_cons_self ..
  · obtain ⟨f, -, hf⟩ := TransGen.tail'_iff.1 he
    exact List.mem_cons_of_mem _ hf.mem

/-- A way that never comes round to where it was leads through ever fewer dialogues. -/
theorem exists_arrives (h : ¬ c.Circles outlook d) : ∃ t, c.Arrives outlook d t := by
  have := c.finite_ahead outlook d
  let further (f e : c.Ahead outlook d) : Prop := TransGen (c.Follows outlook) e.1 f.1
  have htrans : IsTrans _ further := ⟨fun _ _ _ hgf hfe => hfe.trans hgf⟩
  have hirrefl : Std.Irrefl further := ⟨fun e he => h ⟨e.1, e.2, he⟩⟩
  have hall : ∀ e : c.Ahead outlook d, ∃ t, c.Arrives outlook e.1 t := by
    intro e
    induction e using (Finite.wellFounded_of_trans_of_irrefl further).induction with
    | _ e ih =>
      cases ho : outlook e.1 with
      | link id =>
        cases hf : c.dialogue? id with
        | none => exact ⟨_, .lost ho hf⟩
        | some f =>
          have hef : c.Follows outlook e.1 f := ⟨id, ho, hf⟩
          obtain ⟨t, ht⟩ := ih ⟨f, e.2.tail hef⟩ (.single hef)
          exact ⟨_, .pass hef ht⟩
      | _ => exact ⟨_, .stay fun id hid => by cases ho.symm.trans hid⟩
  exact hall ⟨d, .refl⟩

/-- **A way ends unless it comes to a circle.** -/
theorem exists_arrives_iff : (∃ t, c.Arrives outlook d t) ↔ ¬ c.Circles outlook d :=
  ⟨fun ⟨_, ht⟩ => ht.not_circles, exists_arrives⟩

/-! ## The bound on the links -/

theorem arrives_of_trailWithin? {links : Nat} :
    ∀ {d : Dialogue} {t : Trail}, c.trailWithin? outlook links d = some t →
      c.Arrives outlook d t := by
  induction links with
  | zero =>
    intro d t h
    unfold trailWithin? at h
    split at h
    · split at h
      · cases h
        exact .lost ‹_› ‹_›
      · cases h
    case h_2 hstay =>
      cases h
      exact .stay hstay
  | succ links ih =>
    intro d t h
    unfold trailWithin? at h
    split at h
    · split at h
      · cases h
        exact .lost ‹_› ‹_›
      · obtain ⟨u, hu, rfl⟩ := Option.map_eq_some_iff.1 h
        exact .pass ⟨_, ‹_›, ‹_›⟩ (ih hu)
    case h_2 hstay =>
      cases h
      exact .stay hstay

/-- As many links as dialogues are passed are enough. -/
theorem Arrives.trailWithin?_eq (ht : c.Arrives outlook d t) :
    ∀ {links : Nat}, t.passed.length ≤ links → c.trailWithin? outlook links d = some t := by
  induction ht with
  | stay h =>
    intro links _
    unfold trailWithin?
    split
    · exact absurd ‹_› (h _)
    · rfl
  | lost h hno =>
    intro links _
    unfold trailWithin?
    rw [h]
    simp only [hno]
  | pass hf _ ih =>
    intro links hlinks
    obtain ⟨id, hid, he⟩ := hf
    obtain ⟨links, rfl⟩ : ∃ n, links = n + 1 := Nat.exists_eq_add_one.2 (Nat.zero_lt_of_lt hlinks)
    unfold trailWithin?
    simp only [hid, he, ih (Nat.le_of_succ_le_succ hlinks), Option.map_some]

/-- The bound is met on a circle only. -/
theorem trail?_eq_some_iff (hd : d ∈ c.dialogues) :
    c.trail? outlook d = some t ↔ c.Arrives outlook d t :=
  ⟨arrives_of_trailWithin?, fun ht => ht.trailWithin?_eq <|
    (List.subperm_of_subset ht.nodup_passed (ht.passed_subset hd)).length_le⟩

/-- The trail from a dialogue that is passed is that of the dialogue that follows, and one more. -/
theorem trail?_of_follows (hd : d ∈ c.dialogues) (h : c.Follows outlook d e) :
    c.trail? outlook d = (c.trail? outlook e).map (Trail.cons d) := by
  refine Option.ext fun t => ?_
  rw [trail?_eq_some_iff hd, Option.map_eq_some_iff]
  simp only [trail?_eq_some_iff h.mem]
  constructor
  · intro ht
    obtain ⟨u, hu, rfl⟩ := ht.of_follows h
    exact ⟨u, hu, rfl⟩
  · rintro ⟨u, hu, rfl⟩
    exact .pass h hu

end Conversation

end Colloquy
