import Colloquy.Conversation
import Mathlib.Data.List.Nodup

/-!
# Proofs/Script/Opening — which dialogue a conversation starts with

A dialogue qualifies if it is marked as a starting point and all its conditions hold. Of those that
qualify, the first with the highest id opens the conversation (`Conversation.OpensAt`). The search
goes through a script once and leaves out every dialogue that could not be better than the best so
far, whatever its conditions say: what it knows of the dialogues it has passed is that the best of
them is the one it holds (`Conversation.Holds`).

Where no two dialogues share an id, which one is first does not matter, and neither does the order
in which the script lists them.
-/

namespace Colloquy

/-- The dialogue is marked as a starting point, and all its conditions hold. -/
def Dialogue.Qualifies (vars : Variables) (d : Dialogue) : Prop :=
  d.startingPoint = true ∧ ∀ k ∈ d.conditions, (k.evaluate vars).value = true

namespace Conversation

variable {vars : Variables} {ds : List Dialogue} {d e : Dialogue} {i j : Nat}

/-- The dialogue at a place qualifies. No other that qualifies has a higher id, and none before it
has the same. -/
structure OpensAt (vars : Variables) (ds : List Dialogue) (i : Nat) (d : Dialogue) : Prop where
  get : ds[i]? = some d
  qualifies : d.Qualifies vars
  highest : ∀ e ∈ ds, e.Qualifies vars → e.id ≤ d.id
  first : ∀ j e, ds[j]? = some e → e.Qualifies vars → e.id = d.id → i ≤ j

namespace OpensAt

theorem mem (h : OpensAt vars ds i d) : d ∈ ds := List.mem_of_getElem? h.get

/-- There is one place to open a conversation at. -/
theorem place_unique (hd : OpensAt vars ds i d) (he : OpensAt vars ds j e) : i = j := by
  have hid : d.id = e.id :=
    Int32.le_antisymm (he.highest d hd.mem hd.qualifies) (hd.highest e he.mem he.qualifies)
  exact Nat.le_antisymm (hd.first j e he.get he.qualifies hid.symm)
    (he.first i d hd.get hd.qualifies hid)

theorem unique (hd : OpensAt vars ds i d) (he : OpensAt vars ds j e) : d = e := by
  obtain rfl := hd.place_unique he
  exact Option.some.inj (hd.get.symm.trans he.get)

end OpensAt

/-! ## The search -/

/-- What the search holds is the best of the dialogues that it has passed. -/
def Holds (vars : Variables) (seen : List Dialogue) : Option Dialogue → Prop
  | none => ∀ d ∈ seen, ¬ d.Qualifies vars
  | some d => ∃ i, OpensAt vars seen i d

theorem getElem?_concat_eq_some_iff {seen : List Dialogue} :
    (seen ++ [d])[j]? = some e ↔ seen[j]? = some e ∨ (j = seen.length ∧ d = e) := by
  rw [List.getElem?_append]
  split
  case isTrue h => simp [Nat.ne_of_lt h]
  case isFalse h =>
    rw [List.getElem?_eq_none (Nat.le_of_not_lt h), List.getElem?_singleton]
    have : j - seen.length = 0 ↔ j = seen.length := by omega
    simp [this]

/-- A dialogue that does not qualify, or whose id is no higher, leaves the best the best. -/
theorem Holds.skip {seen : List Dialogue} {best : Option Dialogue} (h : Holds vars seen best)
    (hd : d.Qualifies vars → ∃ b, best = some b ∧ d.id ≤ b.id) : Holds vars (seen ++ [d]) best := by
  cases best with
  | none =>
    rintro e he hq
    rcases List.mem_append.1 he with he | he
    · exact h e he hq
    · obtain rfl := List.mem_singleton.1 he
      obtain ⟨b, hb, -⟩ := hd hq
      cases hb
  | some b =>
    obtain ⟨i, hi⟩ := h
    refine ⟨i, getElem?_concat_eq_some_iff.2 (.inl hi.get), hi.qualifies, ?_, ?_⟩
    · rintro e he hq
      rcases List.mem_append.1 he with he | he
      · exact hi.highest e he hq
      · obtain rfl := List.mem_singleton.1 he
        obtain ⟨_, hb, hle⟩ := hd hq
        cases hb
        exact hle
    · intro j e he hq hid
      rcases getElem?_concat_eq_some_iff.1 he with he | ⟨rfl, -⟩
      · exact hi.first j e he hq hid
      · exact Nat.le_of_lt (List.getElem?_eq_some_iff.1 hi.get).1

/-- A dialogue that qualifies and has a higher id is the best from then on. -/
theorem Holds.take {seen : List Dialogue} {best : Option Dialogue} (h : Holds vars seen best)
    (hq : d.Qualifies vars) (hbest : ∀ b, best = some b → b.id < d.id) :
    Holds vars (seen ++ [d]) (some d) := by
  have hlower : ∀ e ∈ seen, e.Qualifies vars → e.id < d.id := by
    intro e he heq
    cases best with
    | none => exact absurd heq (h e he)
    | some b =>
      obtain ⟨i, hi⟩ := h
      exact Int32.lt_of_le_of_lt (hi.highest e he heq) (hbest b rfl)
  refine ⟨seen.length, getElem?_concat_eq_some_iff.2 (.inr ⟨rfl, rfl⟩), hq, ?_, ?_⟩
  · intro e he heq
    rcases List.mem_append.1 he with he | he
    · exact Int32.le_of_lt (hlower e he heq)
    · obtain rfl := List.mem_singleton.1 he
      exact Int32.le_refl _
  · intro j e he heq hid
    rcases getElem?_concat_eq_some_iff.1 he with he | ⟨rfl, -⟩
    · exact absurd (hid ▸ hlower e (List.mem_of_getElem? he) heq) Int32.lt_irrefl
    · exact Nat.le_refl _

theorem qualifies_iff :
    d.Qualifies vars ↔ d.startingPoint = true ∧
      (Condition.allHold vars d.conditions).value = true := by
  rw [Dialogue.Qualifies, Condition.allHold_eq_true_iff]

/-- What the search holds once it has passed one more dialogue. -/
def better (vars : Variables) (best : Option Dialogue) (d : Dialogue) : Option Dialogue :=
  if (d.startingPoint && best.all fun b => decide (b.id < d.id)) &&
      (Condition.allHold vars d.conditions).value then some d
  else best

theorem value_bestStart_cons (best : Option Dialogue) :
    (bestStart vars best (d :: ds)).value = (bestStart vars (better vars best d) ds).value := by
  rw [bestStart, better]
  split
  case isTrue h => rw [h, Bool.true_and]
  case isFalse h => rw [Bool.eq_false_iff.2 h, Bool.false_and, if_neg Bool.false_ne_true]

theorem Holds.better {seen : List Dialogue} {best : Option Dialogue} (h : Holds vars seen best)
    (d : Dialogue) : Holds vars (seen ++ [d]) (better vars best d) := by
  unfold Conversation.better
  split
  case isTrue hd =>
    rw [Bool.and_eq_true, Bool.and_eq_true, Option.all_eq_true] at hd
    exact h.take (qualifies_iff.2 ⟨hd.1.1, hd.2⟩) fun b hb => of_decide_eq_true (hd.1.2 b hb)
  case isFalse hd =>
    refine h.skip fun hq => ?_
    obtain ⟨hstart, hall⟩ := qualifies_iff.1 hq
    rw [hstart, hall, Bool.true_and, Bool.and_true, Option.all_eq_true] at hd
    push Not at hd
    obtain ⟨b, hb, hlt⟩ := hd
    exact ⟨b, hb, Int32.not_lt.1 fun hlt' => hlt (decide_eq_true hlt')⟩

/-- The search ends with the best of the dialogues that it began with and those that it passed. -/
theorem holds_bestStart (ds : List Dialogue) : ∀ {seen : List Dialogue} {best : Option Dialogue},
    Holds vars seen best → Holds vars (seen ++ ds) (bestStart vars best ds).value := by
  induction ds with
  | nil => exact fun h => by rwa [List.append_nil]
  | cons d ds ih =>
    intro seen best h
    rw [value_bestStart_cons, List.append_cons]
    exact ih (h.better d)

theorem holds_startingPoint (c : Conversation) (vars : Variables) :
    Holds vars c.dialogues (c.startingPoint vars).value := by
  have hnone : Holds vars [] none := nofun
  exact holds_bestStart c.dialogues hnone

/-! ## Where a conversation starts -/

theorem value_startingPoint_eq_some_iff {c : Conversation} :
    (c.startingPoint vars).value = some d ↔ ∃ i, OpensAt vars c.dialogues i d := by
  have h := c.holds_startingPoint vars
  cases hd : (c.startingPoint vars).value with
  | none =>
    rw [hd] at h
    exact iff_of_false nofun fun ⟨i, hi⟩ => h d hi.mem hi.qualifies
  | some e =>
    rw [hd] at h
    obtain ⟨i, hi⟩ := h
    constructor
    · intro heq
      exact ⟨i, Option.some.inj heq ▸ hi⟩
    · rintro ⟨j, hj⟩
      rw [hi.unique hj]

/-- Where no two dialogues share an id, there is no first among several. -/
theorem exists_opensAt_iff_of_nodup (hids : (ds.map (·.id)).Nodup) :
    (∃ i, OpensAt vars ds i d) ↔
      d ∈ ds ∧ d.Qualifies vars ∧ ∀ e ∈ ds, e.Qualifies vars → e.id ≤ d.id := by
  constructor
  · rintro ⟨i, hi⟩
    exact ⟨hi.mem, hi.qualifies, hi.highest⟩
  · rintro ⟨hmem, hq, hhighest⟩
    obtain ⟨i, hi⟩ := List.mem_iff_getElem?.1 hmem
    refine ⟨i, hi, hq, hhighest, fun j e he _ hid => ?_⟩
    have hlt : i < (ds.map (·.id)).length := by
      rw [List.length_map]
      exact (List.getElem?_eq_some_iff.1 hi).1
    refine Nat.le_of_eq ((List.getElem?_inj hlt hids).1 ?_)
    rw [List.getElem?_map, List.getElem?_map, hi, he, Option.map_some, Option.map_some, hid]

/-- **A conversation starts with the first of the best**, and with none only if none qualifies. In
which order the script lists its dialogues does not matter if no two share an id. -/
theorem startingPoint_spec (c : Conversation) (vars : Variables) :
    ((c.startingPoint vars).value = none ↔ ∀ d ∈ c.dialogues, ¬ d.Qualifies vars) ∧
    (∀ d, (c.startingPoint vars).value = some d ↔ ∃! i, OpensAt vars c.dialogues i d) ∧
    ∀ c' : Conversation, c.dialogues.Perm c'.dialogues → (c.dialogues.map (·.id)).Nodup →
      (c'.startingPoint vars).value = (c.startingPoint vars).value := by
  refine ⟨?_, fun d => ?_, fun c' hperm hids => Option.ext fun d => ?_⟩
  · have h := c.holds_startingPoint vars
    constructor
    · exact fun hnone => by rwa [hnone] at h
    · intro hnone
      rw [Option.eq_none_iff_forall_ne_some]
      intro d hd
      obtain ⟨i, hi⟩ := value_startingPoint_eq_some_iff.1 hd
      exact hnone d hi.mem hi.qualifies
  · rw [value_startingPoint_eq_some_iff]
    exact ⟨fun ⟨i, hi⟩ => ⟨i, hi, fun j hj => hj.place_unique hi⟩, ExistsUnique.exists⟩
  · have hids' : (c'.dialogues.map (·.id)).Nodup := (hperm.map _).nodup_iff.1 hids
    rw [value_startingPoint_eq_some_iff, value_startingPoint_eq_some_iff,
      exists_opensAt_iff_of_nodup hids, exists_opensAt_iff_of_nodup hids']
    simp only [hperm.mem_iff]

/-- A greeting, a better one for friends and one for nobody may be listed either way round. -/
theorem startingPoint_of_reversed :
    let friend : Condition := .mk₂ (.ofVariable "friend") .equal (.ofLiteral "true" "bool")
    let never : Condition := .mk₂ (.ofLiteral "1" "int") .greater (.ofLiteral "2" "int")
    let c : Conversation := { dialogues := [{ id := -5, startingPoint := true },
      { id := 9, startingPoint := true, conditions := [never] },
      { id := 4, startingPoint := true, conditions := [friend] }] }
    let c' : Conversation := { dialogues := c.dialogues.reverse }
    let vars := (Variables.empty.register "friend" (.bool true)).vars
    c.dialogues.Perm c'.dialogues ∧ (c.dialogues.map (·.id)).Nodup ∧
      (c'.startingPoint vars).value = (c.startingPoint vars).value := by
  intro friend never c c' vars
  have hperm : c.dialogues.Perm c'.dialogues := (List.reverse_perm _).symm
  have hids : (c.dialogues.map (·.id)).Nodup := by decide
  exact ⟨hperm, hids, (c.startingPoint_spec vars).2.2 c' hperm hids⟩

end Conversation

end Colloquy
