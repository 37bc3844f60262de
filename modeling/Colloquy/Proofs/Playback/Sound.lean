import Colloquy.Conversation.Reach
import Colloquy.Conversation.Trail
import Colloquy.Library
import Mathlib.Data.List.Basic

/-!
# Proofs/Playback/Sound — what performers rely on in a stored script

A script is **sound** if each of its dialogues has a sentence to show and each link leads to a
dialogue of it. Whatever is in a library is sound (`Library.Sound`), for only what passes the check
is put in. In a sound script no dialogue is passed through on entering it (`trail?_of_sentence`), so
that whoever goes to a dialogue stays there and says its first sentence.
-/

namespace Colloquy

namespace Dialogue

/-! ## What a dialogue goes on with -/

/-- What a dialogue goes on with, and when. -/
theorem outlook_cases (d : Dialogue) (said : Nat) :
    (∃ raw, d.sentences[said]? = some raw ∧ d.outlook said = .sentence raw) ∨
      (d.sentences.length ≤ said ∧ d.choices ≠ [] ∧ d.outlook said = .choices) ∨
        (d.sentences.length ≤ said ∧ d.choices = [] ∧
          ((∃ id, d.next? = some id ∧ d.outlook said = .link id) ∨
            (d.next? = none ∧ d.outlook said = .ending))) := by
  rw [outlook]
  cases hs : d.sentences[said]? with
  | some raw => exact .inl ⟨raw, rfl, rfl⟩
  | none =>
    have hlen := List.getElem?_eq_none_iff.1 hs
    by_cases hc : d.choices = []
    · refine .inr (.inr ⟨hlen, hc, ?_⟩)
      rw [if_pos hc]
      cases d.next? with
      | some id => exact .inl ⟨id, rfl, rfl⟩
      | none => exact .inr ⟨rfl, rfl⟩
    · exact .inr (.inl ⟨hlen, hc, if_neg hc⟩)

theorem outlook_eq_sentence {d : Dialogue} {said : Nat} {raw : String}
    (h : d.outlook said = .sentence raw) : d.sentences[said]? = some raw := by
  obtain ⟨raw', hs, ho⟩ | ⟨-, -, ho⟩ | ⟨-, -, ⟨id, -, ho⟩ | ⟨-, ho⟩⟩ := d.outlook_cases said <;>
    cases h.symm.trans ho
  exact hs

/-- A dialogue links on when its sentences are exhausted and it has no choices. -/
theorem outlook_eq_link {d : Dialogue} {said : Nat} {id : Int32} (h : d.outlook said = .link id) :
    d.sentences.length ≤ said ∧ d.choices = [] ∧ d.next? = some id := by
  obtain ⟨raw, -, ho⟩ | ⟨-, -, ho⟩ | ⟨hs, hc, ⟨id', hn, ho⟩ | ⟨-, ho⟩⟩ := d.outlook_cases said <;>
    cases h.symm.trans ho
  exact ⟨hs, hc, hn⟩

theorem outlook_eq_choices {d : Dialogue} {said : Nat} (h : d.outlook said = .choices) :
    d.sentences.length ≤ said ∧ d.choices ≠ [] := by
  obtain ⟨raw, -, ho⟩ | ⟨hs, hc, -⟩ | ⟨-, -, ⟨id, -, ho⟩ | ⟨-, ho⟩⟩ := d.outlook_cases said
  · cases h.symm.trans ho
  · exact ⟨hs, hc⟩
  · cases h.symm.trans ho
  · cases h.symm.trans ho

theorem outlook_eq_ending {d : Dialogue} {said : Nat} (h : d.outlook said = .ending) :
    d.sentences.length ≤ said ∧ d.choices = [] ∧ d.next? = none := by
  obtain ⟨raw, -, ho⟩ | ⟨-, -, ho⟩ | ⟨hs, hc, ⟨id, -, ho⟩ | ⟨hn, -⟩⟩ := d.outlook_cases said
  · cases h.symm.trans ho
  · cases h.symm.trans ho
  · cases h.symm.trans ho
  · exact ⟨hs, hc, hn⟩

end Dialogue

namespace Conversation

/-- Every dialogue has a sentence to show, and every link leads to a dialogue. -/
structure Sound (c : Conversation) : Prop where
  sentences : ∀ d ∈ c.dialogues, d.sentences ≠ []
  links : ∀ d ∈ c.dialogues, ∀ id ∈ d.links, ∃ e, c.dialogue? id = some e

theorem result_auditLink_eq_ok_iff {c : Conversation} {dialogue : Int32} {link? : Option Int32} :
    (c.auditLink dialogue link?).result = .ok () ↔
      ∀ id ∈ link?, id ∈ c.dialogues.map (·.id) := by
  cases link? with
  | none => simp [auditLink]
  | some id => simp [auditLink]

/-- An id that a dialogue bears leads to a dialogue. -/
theorem exists_dialogue?_of_mem {c : Conversation} {id : Int32}
    (h : id ∈ c.dialogues.map (·.id)) : ∃ e, c.dialogue? id = some e := by
  obtain ⟨d, hd, rfl⟩ := List.mem_map.1 h
  refine Option.isSome_iff_exists.1 (List.find?_isSome.2 ⟨d, hd, ?_⟩)
  exact beq_self_eq_true d.id

/-- What the check says of one dialogue, as far as going through the script depends on it. -/
theorem of_auditDialogue {c : Conversation} {d : Dialogue}
    (h : (c.auditDialogue d).result = .ok ()) :
    d.sentences ≠ [] ∧ ∀ id ∈ d.links, id ∈ c.dialogues.map (·.id) := by
  simp only [auditDialogue, Audit.result_seq_eq_ok_iff, Audit.result_require_eq_ok_iff,
    Audit.result_each_eq_ok_iff, result_auditLink_eq_ok_iff] at h
  obtain ⟨hs, -, -, hl, -, hc, -⟩ := h
  refine ⟨hs, fun id hid => ?_⟩
  rcases List.mem_append.1 hid with hid | hid
  · exact hl id (Option.mem_toList.1 hid)
  · obtain ⟨choice, hchoice, hnext⟩ := List.mem_filterMap.1 hid
    have := hc choice hchoice
    simp only [auditChoice, Audit.result_seq_eq_ok_iff, result_auditLink_eq_ok_iff] at this
    exact this.2.2.2 id hnext

/-- A script that passes the check is sound. -/
theorem sound_of_audit {c : Conversation} (h : c.audit.result = .ok ()) : c.Sound := by
  simp only [audit, Audit.result_seq_eq_ok_iff, Audit.result_each_eq_ok_iff] at h
  obtain ⟨-, -, -, hd, -⟩ := h
  exact ⟨fun d hm => (of_auditDialogue (hd d hm)).1, fun d hm id hid =>
    exists_dialogue?_of_mem ((of_auditDialogue (hd d hm)).2 id hid)⟩

/-! ## Making a script ready keeps it sound -/

theorem dialogue?_prepare (c : Conversation) (id : Int32) :
    c.prepare.value.dialogue? id = (c.dialogue? id).map (prepareDialogue c.background) := by
  simp only [dialogue?, prepare, List.find?_map]
  rfl

theorem Sound.prepare {c : Conversation} (h : c.Sound) : c.prepare.value.Sound := by
  constructor
  · intro d hd
    obtain ⟨e, he, rfl⟩ := List.mem_map.1 hd
    exact h.sentences e he
  · intro d hd id hid
    obtain ⟨e, he, rfl⟩ := List.mem_map.1 hd
    obtain ⟨f, hf⟩ := h.links e he id hid
    exact ⟨prepareDialogue c.background f, by rw [dialogue?_prepare, hf]; rfl⟩

/-! ## Entering a dialogue of a sound script -/

variable {c : Conversation} {d : Dialogue}

/-- The first sentence of a dialogue is what it goes on with when it is entered. -/
theorem Sound.exists_outlook (h : c.Sound) (hd : d ∈ c.dialogues) :
    ∃ raw, d.sentences[0]? = some raw ∧ d.outlook 0 = .sentence raw ∧
      d.ambientOutlook 0 = .sentence raw := by
  cases hs : d.sentences with
  | nil => exact absurd hs (h.sentences d hd)
  | cons raw rest =>
    have h0 : d.sentences[0]? = some raw := by rw [hs]; rfl
    exact ⟨raw, rfl, by simp only [Dialogue.outlook, h0],
      by simp only [Dialogue.ambientOutlook, Dialogue.outlook, h0]⟩

/-- Nothing is passed through where there is a sentence to show. -/
theorem trail?_of_sentence {outlook : Dialogue → Outlook} {raw : String}
    (h : outlook d = .sentence raw) : c.trail? outlook d = some ⟨[], .at d⟩ := by
  unfold trail? trailWithin?
  simp only [h]

end Conversation

/-! ## What is in a library is sound -/

namespace Library

/-- Whatever is in the library is sound. -/
def Sound (l : Library) : Prop := ∀ name c, l.get? name = some c → c.Sound

theorem sound_empty : empty.Sound := fun _ _ h => by cases h

theorem Sound.insert {l m : Library} (hl : l.Sound) {name : String} {c : Conversation}
    (h : (l.insert name c).result = .ok m) : m.Sound := by
  intro other e he
  rw [get?_of_insert h] at he
  split at he
  · cases he
    exact (Conversation.sound_of_audit (result_insert_eq_ok_iff.1 h).2.1).prepare
  · exact hl other e he

theorem Sound.load {l m : Library} (hl : l.Sound) {name text : String}
    (h : (l.load name text).result = .ok m) : m.Sound := by
  obtain ⟨c, -, hc⟩ := result_load_eq_ok_iff.1 h
  exact hl.insert hc

/-- The library after a conversation was inserted or refused. -/
def offer (l : Library) (name : String) (c : Conversation) : Library :=
  match (l.insert name c).result with
  | .ok m => m
  | .error _ => l

theorem Sound.offer {l : Library} (hl : l.Sound) (name : String) (c : Conversation) :
    (l.offer name c).Sound := by
  unfold Library.offer
  split
  · exact hl.insert ‹_›
  · exact hl

/-- The library that is left of conversations offered to an empty one, in order. -/
def stocked (entries : List (String × Conversation)) : Library :=
  entries.foldl (fun l e => l.offer e.1 e.2) empty

theorem sound_stocked (entries : List (String × Conversation)) : (stocked entries).Sound :=
  List.foldlRecOn entries _ sound_empty fun _ hl e _ => hl.offer e.1 e.2

end Library

end Colloquy
