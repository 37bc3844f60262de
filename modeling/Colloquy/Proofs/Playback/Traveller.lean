import Colloquy.Proofs.Script.Trail

/-!
# Proofs/Playback/Traveller — going on ends unless it meets an empty circle

Going on and going to a dialogue call one another. Who goes on where there is a link goes to the
dialogue that it leads to, and who comes to a dialogue goes on from there (`Traveller.Goes`).
Nothing gets smaller from call to call, and where the links lead round through dialogues with
nothing to show, the calls do not end. Everywhere else they do, and each dialogue is passed at most
once (`Traveller.exists_goes_iff`, `Traveller.Goes.links_le`).

A dialogue with sentences is never passed on entering it, even if all of them were said before. So
what does not end is a circle of empty dialogues only.
-/

namespace Colloquy

open Relation

/-! ## Empty circles -/

namespace Conversation

variable {c : Conversation} {Empty : Dialogue → Prop} {d e : Dialogue}

/-- A dialogue is empty, and its link leads to another. -/
def Passes (c : Conversation) (Empty : Dialogue → Prop) (d e : Dialogue) : Prop :=
  Empty d ∧ ∃ id, d.next? = some id ∧ c.dialogue? id = some e

/-- From the dialogue of an id on, empty dialogues lead to one that comes round to itself. -/
def MeetsCircle (c : Conversation) (Empty : Dialogue → Prop) (id : Int32) : Prop :=
  ∃ d e, c.dialogue? id = some d ∧ ReflTransGen (c.Passes Empty) d e ∧
    TransGen (c.Passes Empty) e e

end Conversation

/-- The link that there is, if one is to be followed. -/
def Outlook.link? : Outlook → Option Int32
  | link id => some id
  | _ => none

theorem Outlook.link?_eq_some_iff {o : Outlook} {id : Int32} : o.link? = some id ↔ o = link id := by
  cases o <;> simp [link?]

/-- What a performer is about to do: to go on where it is, or to go to the dialogue of an id. -/
inductive Errand
  | onward
  | goTo (id : Int32)
deriving DecidableEq

/-- One who goes on from dialogue to dialogue, and comes to rest where there is no link, or where a
link leads nowhere. -/
structure Traveller (σ ρ : Type) where
  script : σ → Conversation
  dialogue : σ → Dialogue
  outlook : σ → Outlook
  enter : σ → Dialogue → σ
  rest : σ → ρ
  lost : σ → Int32 → ρ
  /-- The outlook on entering a dialogue. -/
  entry : Dialogue → Outlook
  /-- There is nothing to show in the dialogue. -/
  Empty : Dialogue → Prop
  script_enter : ∀ x d, script (enter x d) = script x
  outlook_enter : ∀ x d, outlook (enter x d) = entry d
  entry_eq_link_iff : ∀ {d id}, entry d = .link id ↔ Empty d ∧ d.next? = some id
  next_of_outlook : ∀ {x id}, outlook x = .link id → (dialogue x).next? = some id

namespace Traveller

variable {σ ρ : Type} (w : Traveller σ ρ) {e : Errand} {x : σ} {n : Nat} {r : ρ}

/-- What comes of an errand, and how many links are followed. -/
inductive Goes : Errand → σ → Nat → ρ → Prop
  | rest {x : σ} (h : ∀ id, w.outlook x ≠ .link id) : Goes .onward x 0 (w.rest x)
  | link {x : σ} {id : Int32} {n : Nat} {r : ρ} (h : w.outlook x = .link id)
    (hr : Goes (.goTo id) x n r) : Goes .onward x n r
  | lost {x : σ} {id : Int32} (hno : (w.script x).dialogue? id = none) :
    Goes (.goTo id) x 1 (w.lost x id)
  | enter {x : σ} {id : Int32} {d : Dialogue} {n : Nat} {r : ρ}
    (hd : (w.script x).dialogue? id = some d) (hr : Goes .onward (w.enter x d) n r) :
    Goes (.goTo id) x (n + 1) r

/-- The link that an errand begins with, if any. -/
def link? (x : σ) : Errand → Option Int32
  | .onward => (w.outlook x).link?
  | .goTo id => some id

/-- The way of an errand meets an empty circle. -/
def MeetsCircle (e : Errand) (x : σ) : Prop :=
  ∃ id, w.link? x e = some id ∧ (w.script x).MeetsCircle w.Empty id

variable {w}

theorem follows_entry (c : Conversation) : c.Follows w.entry = c.Passes w.Empty := by
  funext d f
  refine propext ⟨?_, ?_⟩
  · rintro ⟨id, hid, hf⟩
    obtain ⟨hempty, hnext⟩ := w.entry_eq_link_iff.1 hid
    exact ⟨hempty, id, hnext, hf⟩
  · rintro ⟨hempty, id, hnext, hf⟩
    exact ⟨id, w.entry_eq_link_iff.2 ⟨hempty, hnext⟩, hf⟩

theorem meetsCircle_iff : w.MeetsCircle e x ↔ ∃ id d, w.link? x e = some id ∧
    (w.script x).dialogue? id = some d ∧ (w.script x).Circles w.entry d := by
  unfold MeetsCircle Conversation.MeetsCircle Conversation.Circles
  simp only [follows_entry]
  constructor
  · rintro ⟨id, hid, d, f, hd, hdf, hff⟩
    exact ⟨id, d, hid, hd, f, hdf, hff⟩
  · rintro ⟨id, d, hid, hd, f, hdf, hff⟩
    exact ⟨id, hid, d, f, hd, hdf, hff⟩

/-! ## Errands and trails -/

/-- What the links that an errand follows amount to: those of the trail of a dialogue, and one more
to get there. -/
def Arrives (w : Traveller σ ρ) (x : σ) (n : Nat) : Errand → Prop
  | .onward => ∀ d, w.outlook x = w.entry d →
      ∃ t, (w.script x).Arrives w.entry d t ∧ n = t.passed.length
  | .goTo id => ((w.script x).dialogue? id = none ∧ n = 1) ∨
      ∃ d t, (w.script x).dialogue? id = some d ∧ (w.script x).Arrives w.entry d t ∧
        n = t.passed.length + 1

theorem Goes.arrives (h : w.Goes e x n r) : w.Arrives x n e := by
  induction h with
  | rest h =>
    intro d hd
    exact ⟨_, .stay fun id hid => h id (hd.trans hid), rfl⟩
  | link h _ ih =>
    intro d hd
    rcases ih with ⟨hno, rfl⟩ | ⟨f, t, hf, ht, rfl⟩
    · exact ⟨_, .lost (hd.symm.trans h) hno, rfl⟩
    · exact ⟨_, .pass ⟨_, hd.symm.trans h, hf⟩ ht, rfl⟩
  | lost hno => exact .inl ⟨hno, rfl⟩
  | enter hd _ ih =>
    obtain ⟨t, ht, rfl⟩ := ih _ (w.outlook_enter _ _)
    rw [w.script_enter] at ht
    exact .inr ⟨_, t, hd, ht, rfl⟩

theorem exists_goes_of_arrives {c : Conversation} {d : Dialogue} {t : Trail}
    (ht : c.Arrives w.entry d t) :
    ∀ {x : σ}, w.script x = c → w.outlook x = w.entry d → ∃ n r, w.Goes .onward x n r := by
  induction ht with
  | stay h =>
    intro x _ hx
    exact ⟨0, _, .rest fun id hid => h id (hx.symm.trans hid)⟩
  | lost h hno =>
    rintro x rfl hx
    exact ⟨1, _, .link (hx.trans h) (.lost hno)⟩
  | pass hf _ ih =>
    rintro x rfl hx
    obtain ⟨id, hid, he⟩ := hf
    obtain ⟨n, r, hr⟩ := ih (w.script_enter x _) (w.outlook_enter x _)
    exact ⟨n + 1, r, .link (hx.trans hid) (.enter he hr)⟩

theorem Goes.not_meetsCircle (h : w.Goes e x n r) : ¬ w.MeetsCircle e x := by
  rw [meetsCircle_iff]
  rintro ⟨id, d, hid, hd, hcircle⟩
  have hgo : ∃ m, w.Goes (.goTo id) x m r := by
    cases e with
    | goTo id' =>
      cases hid
      exact ⟨n, h⟩
    | onward =>
      rw [link?, Outlook.link?_eq_some_iff] at hid
      cases h with
      | rest hrest => exact absurd hid (hrest id)
      | link hlink hr =>
        cases hid.symm.trans hlink
        exact ⟨n, hr⟩
  obtain ⟨m, hgo⟩ := hgo
  rcases hgo.arrives with ⟨hno, -⟩ | ⟨f, t, hf, ht, -⟩
  · cases hno.symm.trans hd
  · cases hf.symm.trans hd
    exact Conversation.exists_arrives_iff.1 ⟨t, ht⟩ hcircle

theorem exists_goes (h : ¬ w.MeetsCircle e x) : ∃ n r, w.Goes e x n r := by
  rw [meetsCircle_iff] at h
  have hgo : ∀ id, w.link? x e = some id → ∃ n r, w.Goes (.goTo id) x n r := by
    intro id hid
    cases hd : (w.script x).dialogue? id with
    | none => exact ⟨_, _, .lost hd⟩
    | some d =>
      have hcircle : ¬ (w.script x).Circles w.entry d := fun hcircle => h ⟨id, d, hid, hd, hcircle⟩
      obtain ⟨t, ht⟩ := Conversation.exists_arrives_iff.2 hcircle
      obtain ⟨n, r, hr⟩ := exists_goes_of_arrives ht (w.script_enter x d) (w.outlook_enter x d)
      exact ⟨_, _, .enter hd hr⟩
  cases e with
  | goTo id => exact hgo id rfl
  | onward =>
    by_cases hlink : ∃ id, w.outlook x = .link id
    · obtain ⟨id, hid⟩ := hlink
      obtain ⟨n, r, hr⟩ := hgo id (Outlook.link?_eq_some_iff.2 hid)
      exact ⟨n, r, .link hid hr⟩
    · exact ⟨_, _, .rest fun id hid => hlink ⟨id, hid⟩⟩

/-- **An errand comes to an end unless it meets an empty circle.** -/
theorem exists_goes_iff : (∃ n r, w.Goes e x n r) ↔ ¬ w.MeetsCircle e x :=
  ⟨fun ⟨_, _, h⟩ => h.not_meetsCircle, exists_goes⟩

/-! ## How many links are followed -/

/-- A dialogue that is not passed, or that links to where the way leads, is no part of the way. -/
theorem links_le_of_goTo {id : Int32} (hx : w.dialogue x ∈ (w.script x).dialogues)
    (hnext : w.Empty (w.dialogue x) → (w.dialogue x).next? = some id)
    (h : w.Goes (.goTo id) x n r) : n ≤ (w.script x).dialogues.length := by
  rcases h.arrives with ⟨-, rfl⟩ | ⟨d, t, hd, ht, rfl⟩
  · exact List.length_pos_of_mem hx
  · have hnot : w.dialogue x ∉ t.passed := by
      intro hmem
      have hon := ht.reflTransGen_of_mem _ hmem
      obtain ⟨id', hid'⟩ := ht.link_of_mem _ hmem
      have hempty := (w.entry_eq_link_iff.1 hid').1
      have hback : (w.script x).Follows w.entry (w.dialogue x) d :=
        ⟨id, w.entry_eq_link_iff.2 ⟨hempty, hnext hempty⟩, hd⟩
      exact ht.not_circles ⟨_, hon, .head' hback hon⟩
    have hsub : w.dialogue x :: t.passed ⊆ (w.script x).dialogues :=
      List.cons_subset.2 ⟨hx, ht.passed_subset (Conversation.mem_of_dialogue? hd).1⟩
    exact (List.subperm_of_subset (List.nodup_cons.2 ⟨hnot, ht.nodup_passed⟩) hsub).length_le

/-- **No more links are followed than there are dialogues.** -/
theorem Goes.links_le (hx : w.dialogue x ∈ (w.script x).dialogues)
    (he : ∀ id, e = .goTo id → ¬ w.Empty (w.dialogue x)) (h : w.Goes e x n r) :
    n ≤ (w.script x).dialogues.length := by
  cases e with
  | goTo id => exact links_le_of_goTo hx (fun hempty => absurd hempty (he id rfl)) h
  | onward =>
    cases h with
    | rest => exact Nat.zero_le _
    | link hlink hr => exact links_le_of_goTo hx (fun _ => w.next_of_outlook hlink) hr

/-- Where no dialogue is empty, no errand fails to end and none follows more than one link. -/
theorem Goes.links_le_one (hfull : ∀ d ∈ (w.script x).dialogues, ¬ w.Empty d)
    (h : w.Goes e x n r) : n ≤ 1 := by
  have hgo : ∀ {id m}, w.Goes (.goTo id) x m r → m ≤ 1 := by
    intro id m hr
    rcases hr.arrives with ⟨-, rfl⟩ | ⟨d, t, hd, ht, rfl⟩
    · exact Nat.le_refl 1
    · have hnil : t.passed = [] := by
        refine List.eq_nil_iff_forall_not_mem.2 fun f hf => ?_
        obtain ⟨id', hid'⟩ := ht.link_of_mem f hf
        exact hfull f (ht.passed_subset (Conversation.mem_of_dialogue? hd).1 hf)
          (w.entry_eq_link_iff.1 hid').1
      rw [hnil]
      exact Nat.le_refl 1
  cases e with
  | goTo id => exact hgo h
  | onward =>
    cases h with
    | rest => exact Nat.zero_le _
    | link _ hr => exact hgo hr

theorem not_meetsCircle (hfull : ∀ d ∈ (w.script x).dialogues, ¬ w.Empty d) :
    ¬ w.MeetsCircle e x := by
  rintro ⟨id, -, d, f, hd, hdf, hff⟩
  obtain ⟨g, ⟨hempty, -⟩, -⟩ := TransGen.head'_iff.1 hff
  rw [← follows_entry] at hdf
  exact hfull f (Conversation.mem_of_reflTransGen hdf (Conversation.mem_of_dialogue? hd).1) hempty

/-! ## Calls -/

/-- What comes of a call, and how many links are followed: those of the errand that one sets off on,
if one does. -/
inductive Performs (w : Traveller σ ρ) (still : ρ) : Option (Errand × σ) → Nat → ρ → Prop
  | remain : Performs w still none 0 still
  | depart {e : Errand} {x : σ} {n : Nat} {r : ρ} (h : w.Goes e x n r) :
    Performs w still (some (e, x)) n r

variable {still : ρ} {departure : Option (Errand × σ)}

/-- A call ends unless it sets off on a way that meets an empty circle. -/
theorem exists_performs_iff : (∃ n r, w.Performs still departure n r) ↔
    ∀ e x, departure = some (e, x) → ¬ w.MeetsCircle e x := by
  constructor
  · rintro ⟨n, r, h⟩ e x rfl
    cases h with
    | depart h => exact h.not_meetsCircle
  · intro h
    obtain _ | ⟨e, x⟩ := departure
    · exact ⟨0, still, .remain⟩
    · obtain ⟨n, r, hgo⟩ := exists_goes (h e x rfl)
      exact ⟨n, r, .depart hgo⟩

theorem exists_performs
    (hfull : ∀ e x, departure = some (e, x) → ∀ d ∈ (w.script x).dialogues, ¬ w.Empty d) :
    ∃ n r, w.Performs still departure n r :=
  exists_performs_iff.2 fun e x hx => not_meetsCircle (hfull e x hx)

theorem Performs.links_le_one {n : Nat} {r : ρ}
    (hfull : ∀ e x, departure = some (e, x) → ∀ d ∈ (w.script x).dialogues, ¬ w.Empty d)
    (h : w.Performs still departure n r) : n ≤ 1 := by
  cases h with
  | remain => exact Nat.zero_le 1
  | depart h => exact h.links_le_one (hfull _ _ rfl)

end Traveller

end Colloquy
