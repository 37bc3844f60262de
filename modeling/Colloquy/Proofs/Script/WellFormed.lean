import Colloquy.Conversation.Check
import Colloquy.Proofs.Playback.Sound
import Colloquy.Proofs.Script.Condition

/-!
# Proofs/Script/WellFormed — the conversations that pass the check

What a sensible conversation is can be said without saying how it is found out
(`Conversation.WellFormed`): its names are declared once, its links lead somewhere, and each of its
dialogues has something to say. The check passes over the fields one after the other, keeping the
names and ids it has seen; that it lets exactly the well-formed conversations pass
(`Conversation.result_audit_eq_ok_iff`) takes one lemma for each part of it.
-/

namespace Colloquy

namespace Action

theorem knownEffect_eq_ok_iff {a : Action} {e : Effect} :
    a.knownEffect = .ok e ↔ Effect.ofName? a.type = some e := by
  rw [knownEffect, effect?]
  cases Effect.ofName? a.type <;> simp

/-- An action needs a name and a type that is known. That it lacks anything else is noted only. -/
theorem result_audit_eq_ok_iff {a : Action} {e : Effect} :
    a.audit.result = .ok e ↔ ¬ Text.IsBlank a.name ∧ Effect.ofName? a.type = some e := by
  rw [← knownEffect_eq_ok_iff, audit, Audit.result_seq_eq_ok_iff, Audit.result_require_eq_ok_iff,
    Audit.result_bind_eq_ok_iff, Audit.result_ofExcept]
  refine and_congr_right fun _ => ?_
  -- what the action lacks makes for a note, and no more
  cases a.effect with
  | ok _ => exact ⟨fun ⟨_, hknown, h⟩ => hknown.trans h, fun hknown => ⟨e, hknown, rfl⟩⟩
  | error lack => exact ⟨fun ⟨_, hknown, h⟩ => hknown.trans h, fun hknown => ⟨e, hknown, rfl⟩⟩

end Action

namespace Conversation

/-! ## What is well formed -/

/-- An id stands for no dialogue, or for one of the conversation. -/
def Leads (c : Conversation) (id : Int32) : Prop := id = noId ∨ ∃ d ∈ c.dialogues, d.id = id

/-- The conversation declares an action of a name. -/
def Declares (c : Conversation) (name : String) : Prop := ∃ a ∈ c.actions, a.name = name

/-- A choice has a text and does something, and what it mentions is there. -/
structure ChoiceWellFormed (c : Conversation) (choice : Choice) : Prop where
  text : ¬ Text.IsBlank choice.text
  consequence : choice.nextId ≠ noId ∨ choice.actions ≠ []
  leads : c.Leads choice.nextId
  declares : ∀ name ∈ choice.actions, c.Declares name

/-- A dialogue has something to say in each of its sentences, and what it mentions is there. -/
structure DialogueWellFormed (c : Conversation) (d : Dialogue) : Prop where
  sentences : d.sentences ≠ []
  said : ∀ s ∈ d.sentences, ¬ Text.IsBlank s
  sprites : ∀ sprite, d.startingSprite = some sprite → ¬ Text.IsBlank sprite →
    ∃ set, d.spriteSet = some set ∧ ¬ Text.IsBlank set
  leads : c.Leads d.nextId
  declares : ∀ name ∈ d.onFinished, c.Declares name
  choices : ∀ choice ∈ d.choices, c.ChoiceWellFormed choice
  conditions : ∀ condition ∈ d.conditions, condition.WellFormed

/-- A conversation has dialogues and tells its dialogues and its actions apart. -/
structure WellFormed (c : Conversation) : Prop where
  named : ∀ a ∈ c.actions, ¬ Text.IsBlank a.name
  known : ∀ a ∈ c.actions, ∃ e, Effect.ofName? a.type = some e
  nodup_names : (c.actions.map (·.name)).Nodup
  nonempty : c.dialogues ≠ []
  nodup_ids : (c.dialogues.map (·.id)).Nodup
  dialogues : ∀ d ∈ c.dialogues, c.DialogueWellFormed d

/-! ## What each part of the check finds out -/

/-- What is new beside what has been seen, and beside itself. -/
theorem nodup_cons_unseen {α : Type} {seen xs : List α} {x : α} :
    (x :: xs).Nodup ∧ seen.Disjoint (x :: xs) ↔
      x ∉ seen ∧ xs.Nodup ∧ (x :: seen).Disjoint xs := by
  rw [List.nodup_cons, List.disjoint_cons_left, List.disjoint_cons_right]
  tauto

theorem result_auditActions_eq_ok_iff :
    ∀ {as : List Action} {seen : List String}, (auditActions seen as).result = .ok () ↔
      (∀ a ∈ as, ∃ e, a.audit.result = .ok e) ∧
        (as.map (·.name)).Nodup ∧ seen.Disjoint (as.map (·.name))
  | [], seen => by simp [auditActions]
  | a :: as, seen => by
      rw [auditActions, List.forall_mem_cons, List.map_cons, nodup_cons_unseen,
        Audit.result_bind_eq_ok_iff]
      simp only [Audit.result_mapError_eq_ok_iff, Audit.result_seq_eq_ok_iff,
        Audit.result_require_eq_ok_iff, result_auditActions_eq_ok_iff]
      constructor
      · rintro ⟨e, ha, hnew, has, hrest⟩
        exact ⟨⟨⟨e, ha⟩, has⟩, hnew, hrest⟩
      · rintro ⟨⟨⟨e, ha⟩, has⟩, hnew, hrest⟩
        exact ⟨e, ha, hnew, has, hrest⟩

theorem result_auditIds_eq_ok_iff :
    ∀ {ds : List Dialogue} {seen : List Int32}, (auditIds seen ds).result = .ok () ↔
      (ds.map (·.id)).Nodup ∧ seen.Disjoint (ds.map (·.id))
  | [], seen => by simp [auditIds]
  | d :: ds, seen => by
      rw [auditIds, List.map_cons, nodup_cons_unseen, Audit.result_seq_eq_ok_iff,
        Audit.result_require_eq_ok_iff, result_auditIds_eq_ok_iff]

variable {c : Conversation}

/-- A link is followed up where there is one. -/
theorem result_auditLink_linkOf {dialogue id : Int32} :
    (c.auditLink dialogue (linkOf id)).result = .ok () ↔ c.Leads id := by
  rw [result_auditLink_eq_ok_iff, Leads, linkOf]
  by_cases h : id = noId
  · simp [h]
  · simp [h]

theorem result_auditNames_eq_ok_iff {dialogue : Int32} {names : List String} :
    (c.auditNames dialogue names).result = .ok () ↔ ∀ name ∈ names, c.Declares name := by
  simp only [auditNames, Audit.result_each_eq_ok_iff, Audit.result_require_eq_ok_iff,
    List.mem_map, Declares]

theorem result_auditChoice_eq_ok_iff {dialogue : Int32} {choice : Choice} :
    (c.auditChoice dialogue choice).result = .ok () ↔ c.ChoiceWellFormed choice := by
  have hnext : choice.next? ≠ none ↔ choice.nextId ≠ noId := by
    rw [Choice.next?, linkOf]
    split <;> simp [*]
  simp only [auditChoice, Audit.result_seq_eq_ok_iff, Audit.result_require_eq_ok_iff,
    result_auditNames_eq_ok_iff, hnext]
  rw [Choice.next?, result_auditLink_linkOf]
  constructor
  · rintro ⟨htext, hnames, hdoes, hleads⟩
    exact ⟨htext, hdoes.symm, hleads, hnames⟩
  · intro h
    exact ⟨h.text, h.declares, h.consequence.symm, h.leads⟩

theorem sprites_iff {d : Dialogue} : d.startingSprite? = none ∨ d.spriteSet? ≠ none ↔
    ∀ sprite, d.startingSprite = some sprite → ¬ Text.IsBlank sprite →
      ∃ set, d.spriteSet = some set ∧ ¬ Text.IsBlank set := by
  rw [← Option.isSome_iff_ne_none, Option.isSome_iff_exists]
  simp only [Dialogue.spriteSet?, Text.present_eq_some_iff]
  cases h : d.startingSprite? with
  | none =>
    refine ⟨fun _ sprite hs hb => ?_, fun _ => .inl rfl⟩
    cases h.symm.trans (Text.present_eq_some_iff.2 ⟨hs, hb⟩)
  | some sprite =>
    obtain ⟨hs, hb⟩ := Text.present_eq_some_iff.1 h
    refine ⟨?_, fun hset => .inr (hset sprite hs hb)⟩
    rintro (hnone | hset)
    · cases hnone
    · exact fun _ _ _ => hset

theorem result_auditDialogue_eq_ok_iff {d : Dialogue} :
    (c.auditDialogue d).result = .ok () ↔ c.DialogueWellFormed d := by
  simp only [auditDialogue, Audit.result_seq_eq_ok_iff, Audit.result_require_eq_ok_iff,
    Audit.result_each_eq_ok_iff, Audit.result_noteIf, Audit.result_mapError_eq_ok_iff,
    result_auditNames_eq_ok_iff, result_auditChoice_eq_ok_iff, sprites_iff,
    Condition.result_audit_eq_ok_iff, true_and]
  rw [Dialogue.next?, result_auditLink_linkOf]
  constructor
  · rintro ⟨hsentences, hsaid, hsprites, hleads, hnames, hchoices, hconditions⟩
    exact ⟨hsentences, hsaid, hsprites, hleads, hnames, hchoices, hconditions⟩
  · rintro ⟨hsentences, hsaid, hsprites, hleads, hnames, hchoices, hconditions⟩
    exact ⟨hsentences, hsaid, hsprites, hleads, hnames, hchoices, hconditions⟩

/-- Each dialogue of a conversation that passes the check is well formed. -/
theorem dialogueWellFormed_of_audit (h : c.audit.result = .ok ()) {d : Dialogue}
    (hd : d ∈ c.dialogues) : c.DialogueWellFormed d := by
  simp only [audit, Audit.result_seq_eq_ok_iff, Audit.result_each_eq_ok_iff] at h
  obtain ⟨-, -, -, hdialogues, -⟩ := h
  exact result_auditDialogue_eq_ok_iff.1 (hdialogues d hd)

/-- **The check lets the well-formed conversations pass, and no others.** -/
theorem audit_accepts_iff (c : Conversation) : c.audit.result = .ok () ↔ c.WellFormed := by
  simp only [audit, Audit.result_seq_eq_ok_iff, Audit.result_require_eq_ok_iff,
    Audit.result_each_eq_ok_iff, Audit.result_noteIf, result_auditActions_eq_ok_iff,
    result_auditIds_eq_ok_iff, result_auditDialogue_eq_ok_iff, List.disjoint_nil_left, and_true,
    Action.result_audit_eq_ok_iff, exists_and_left]
  constructor
  · rintro ⟨⟨hactions, hnames⟩, hne, hids, hdialogues⟩
    exact ⟨fun a ha => (hactions a ha).1, fun a ha => (hactions a ha).2, hnames, hne, hids,
      hdialogues⟩
  · intro h
    exact ⟨⟨fun a ha => ⟨h.named a ha, h.known a ha⟩, h.nodup_names⟩, h.nonempty, h.nodup_ids,
      h.dialogues⟩

end Conversation

end Colloquy
