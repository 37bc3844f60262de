import Colloquy.Lint
import Colloquy.Proofs.Script.WellFormed
import Colloquy.Proofs.Template

/-!
# Proofs/Script/Clean — scripts about which nothing is found

A conversation is **clean** if it is written by a text about which nothing is found
(`Conversation.Clean`). Its sentences are read once for that, in the order of the text and for the
variables that come about on the way; but which issues a sentence has and which actions it fires is
up to the sentence alone (`issues_ofText`, `actions_ofText`). So no sentence of a clean conversation
has issues, however it is read (`Clean.issues_eq_nil`), and every action that it may fire is
declared and has what it needs (`Clean.exists_action`).

What a tag supplies takes the place of what an action has, and may be blank. That is the only way
for an action to lack something then (`Clean.result_performNamed_eq_error_iff`).
-/

namespace Colloquy

open Markup

/-! ## What is up to a sentence alone -/

namespace Markup

/-- Which issues a sentence has does not depend on the variables. -/
theorem issues_ofText (raw : String) (v w : Variables) :
    (Reading.ofText v raw).sentence.issues = (Reading.ofText w raw).sentence.issues := by
  rw [Reading.sentence, Reading.sentence, (reading_fills v raw).1, (reading_fills w raw).1]
  exact filterMap_fill (fun _ => rfl) _ v w

theorem Sentence.actions_eq (s : Sentence) :
    s.actions = (s.tags.map (·.command)).filterMap Command.action? := by
  rw [actions, List.filterMap_map]
  rfl

/-- Nor does it which actions a sentence fires. -/
theorem actions_ofText (raw : String) (v w : Variables) :
    (Reading.ofText v raw).sentence.actions = (Reading.ofText w raw).sentence.actions := by
  rw [Sentence.actions_eq, Sentence.actions_eq, map_command_tags_sentence,
    map_command_tags_sentence, (reading_fills v raw).1, (reading_fills w raw).1]
  exact congrArg _ (filterMap_fill (fun _ => rfl) _ v w)

theorem mem_map_command_tagsFrom {c : Command} {bs : List Beat} (h : .tag c ∈ bs) :
    ∀ n : Nat, c ∈ (tagsFrom n bs).map (·.command) := by
  induction bs with
  | nil => cases h
  | cons b bs ih =>
    intro n
    cases b with
    | character d => exact ih ((List.mem_cons.1 h).resolve_left (by simp)) (n + 1)
    | tag d =>
      rw [tagsFrom_tag, List.map_cons]
      rcases List.mem_cons.1 h with heq | h
      · cases heq
        exact List.mem_cons_self ..
      · exact List.mem_cons_of_mem _ (ih h n)

/-- An action that a tag fires is one that the sentence fires. -/
theorem Sentence.mem_actions {s : Sentence} {name : String} {supplied : Supplied}
    (h : .tag (.perform name supplied) ∈ s.beats) : name ∈ s.actions := by
  rw [s.actions_eq]
  exact List.mem_filterMap.2 ⟨_, mem_map_command_tagsFrom h 0, rfl⟩

end Markup

namespace Conversation

/-! ## What a script may show and fire -/

/-- A sentence of a conversation, as it is read for some variables. -/
def Speaks (c : Conversation) (s : Sentence) : Prop :=
  ∃ d ∈ c.dialogues, ∃ raw ∈ d.sentences, ∃ vars, s = (Reading.ofText vars raw).sentence

/-- An action that a conversation fires at the end of a dialogue, or for a choice. -/
def Lists (c : Conversation) (name : String) : Prop :=
  ∃ d ∈ c.dialogues, name ∈ d.onFinished ∨ ∃ choice ∈ d.choices, name ∈ choice.actions

/-- An action that a conversation may fire, with what is supplied for it. -/
inductive Fires (c : Conversation) : String → Supplied → Prop
  | tag {s : Sentence} {name : String} {supplied : Supplied} (hs : c.Speaks s)
    (h : .tag (.perform name supplied) ∈ s.beats) : Fires c name supplied
  | listed {name : String} (h : c.Lists name) : Fires c name .nothing

/-- Making a conversation ready does not change which actions it declares. -/
theorem actions_prepare (c : Conversation) : c.prepare.value.actions = c.actions := rfl

theorem action?_prepare (c : Conversation) (name : String) :
    c.prepare.value.action? name = c.action? name := rfl

/-- A conversation that was made ready says what it said before. -/
theorem speaks_of_prepare {c : Conversation} {s : Sentence} (h : c.prepare.value.Speaks s) :
    c.Speaks s := by
  obtain ⟨_, hmem, raw, hraw, hs⟩ := h
  obtain ⟨d, hd, rfl⟩ := List.mem_map.1 hmem
  exact ⟨d, hd, raw, hraw, hs⟩

/-- So it does fire the actions that it fired before. -/
theorem fires_of_prepare {c : Conversation} {name : String} {supplied : Supplied}
    (h : c.prepare.value.Fires name supplied) : c.Fires name supplied := by
  cases h with
  | tag hs h => exact .tag (speaks_of_prepare hs) h
  | listed h =>
    obtain ⟨_, hmem, hname⟩ := h
    obtain ⟨d, hd, rfl⟩ := List.mem_map.1 hmem
    exact .listed ⟨d, hd, hname⟩

/-- Each sentence is among those that the linter reads, for whatever variables. -/
theorem exists_mem_readSentences {d : Int32} {raw : String} {list : List (Int32 × String)}
    (h : (d, raw) ∈ list) :
    ∀ vars : Variables, ∃ w, (d, (Reading.ofText w raw).sentence) ∈ readSentences vars list := by
  induction list with
  | nil => cases h
  | cons entry rest ih =>
    intro vars
    rcases List.mem_cons.1 h with rfl | h
    · exact ⟨vars, List.mem_cons_self ..⟩
    · obtain ⟨w, hw⟩ := ih h (Reading.ofText vars entry.2).vars
      exact ⟨w, List.mem_cons_of_mem _ hw⟩

theorem exists_mem_sentences {c : Conversation} {d : Dialogue} (hd : d ∈ c.dialogues) {raw : String}
    (hraw : raw ∈ d.sentences) :
    ∃ w, (d.id, (Reading.ofText w raw).sentence) ∈ c.sentences :=
  exists_mem_readSentences
    (List.mem_flatMap.2 ⟨d, hd, List.mem_map.2 ⟨raw, hraw, rfl⟩⟩) .empty

/-! ## Clean scripts -/

/-- A conversation that some text writes, about which nothing is found, be it with some sprites or
without any. -/
def Clean (c : Conversation) : Prop :=
  ∃ (sprites? : Option Sprites) (text : String), Conversation.ofText text = .ok c ∧
    (Verdict.ofText? sprites? (some text)).findings = []

/-- Nothing is found about a text if the conversation passes the check, and nothing is found about
that. -/
theorem findings_eq_nil_iff {text : String} {c : Conversation} (h : ofText text = .ok c)
    (sprites? : Option Sprites) :
    (Verdict.ofText? sprites? (some text)).findings = [] ↔
      c.audit.result = .ok () ∧ c.lint sprites? = [] := by
  unfold Verdict.ofText?
  dsimp only
  rw [h]
  dsimp only
  cases c.audit.result with
  | error e => simp
  | ok _ => simp

namespace Clean

variable {c : Conversation}

/-- A clean conversation passes the check, and the linter has nothing to say about it. -/
theorem audit_and_lint (h : c.Clean) :
    c.audit.result = .ok () ∧ ∃ sprites?, c.lint sprites? = [] := by
  obtain ⟨sprites?, text, htext, hfound⟩ := h
  obtain ⟨haudit, hlint⟩ := (findings_eq_nil_iff htext sprites?).1 hfound
  exact ⟨haudit, sprites?, hlint⟩

theorem lintActions_eq_nil (h : c.Clean) : c.lintActions = [] := by
  obtain ⟨-, sprites?, hlint⟩ := h.audit_and_lint
  simp only [lint, List.append_eq_nil_iff] at hlint
  exact hlint.1.1.1.1

theorem lintSentence_eq_nil (h : c.Clean) {d : Int32} {s : Sentence} (hs : (d, s) ∈ c.sentences) :
    c.lintSentence d s = [] := by
  obtain ⟨-, sprites?, hlint⟩ := h.audit_and_lint
  simp only [lint, List.append_eq_nil_iff] at hlint
  exact List.flatMap_eq_nil_iff.1 hlint.1.1.1.2 _ hs

/-- The actions of a clean conversation have all that they need. -/
theorem exists_effect (h : c.Clean) {a : Action} (ha : a ∈ c.actions) : ∃ e, a.effect = .ok e := by
  have hnone := List.filterMap_eq_nil_iff.1 h.lintActions_eq_nil a ha
  cases he : a.effect with
  | ok e => exact ⟨e, rfl⟩
  | error lack =>
    rw [he] at hnone
    cases hnone

/-- **No sentence of a clean conversation has issues**, however the variables stand. -/
theorem issues_eq_nil (h : c.Clean) {s : Sentence} (hs : c.Speaks s) : s.issues = [] := by
  obtain ⟨d, hd, raw, hraw, vars, rfl⟩ := hs
  obtain ⟨w, hw⟩ := exists_mem_sentences hd hraw
  have hnone := h.lintSentence_eq_nil hw
  simp only [lintSentence, List.append_eq_nil_iff, List.map_eq_nil_iff] at hnone
  exact (issues_ofText raw vars w).trans hnone.1.1

/-- The actions that its tags fire are declared. -/
theorem isSome_action?_of_speaks (h : c.Clean) {s : Sentence} (hs : c.Speaks s) {name : String}
    (hname : name ∈ s.actions) : (c.action? name).isSome = true := by
  obtain ⟨d, hd, raw, hraw, vars, rfl⟩ := hs
  obtain ⟨w, hw⟩ := exists_mem_sentences hd hraw
  have hnone := h.lintSentence_eq_nil hw
  simp only [lintSentence, List.append_eq_nil_iff, List.map_eq_nil_iff] at hnone
  rw [actions_ofText raw vars w] at hname
  have hnot := List.filter_eq_nil_iff.1 hnone.1.2 name hname
  rwa [Option.isNone_iff_eq_none, ← ne_eq, Option.ne_none_iff_isSome] at hnot

theorem isSome_action?_of_declares {name : String} (h : c.Declares name) :
    (c.action? name).isSome = true := by
  obtain ⟨a, ha, rfl⟩ := h
  exact List.find?_isSome.2 ⟨a, ha, beq_self_eq_true _⟩

/-- So are those that its choices and its ends fire. -/
theorem isSome_action?_of_lists (h : c.Clean) {name : String} (hname : c.Lists name) :
    (c.action? name).isSome = true := by
  obtain ⟨d, hd, hname⟩ := hname
  have hwell := dialogueWellFormed_of_audit h.audit_and_lint.1 hd
  refine isSome_action?_of_declares ?_
  obtain hname | ⟨choice, hchoice, hname⟩ := hname
  · exact hwell.declares name hname
  · exact (hwell.choices choice hchoice).declares name hname

/-- **Each action that a clean conversation may fire is declared**, and has all that it needs but
for what a tag supplies. -/
theorem exists_action (h : c.Clean) {name : String} {supplied : Supplied}
    (hfires : c.Fires name supplied) :
    ∃ a e, c.action? name = some a ∧ a.name = name ∧ a.effect = .ok e := by
  have hsome : (c.action? name).isSome = true := by
    cases hfires with
    | tag hs htag => exact h.isSome_action?_of_speaks hs (Sentence.mem_actions htag)
    | listed hname => exact h.isSome_action?_of_lists hname
  obtain ⟨a, ha⟩ := Option.isSome_iff_exists.1 hsome
  obtain ⟨e, he⟩ := h.exists_effect (List.mem_of_find?_eq_some ha)
  exact ⟨a, e, ha, by simpa using List.find?_some ha, he⟩

end Clean

end Conversation

/-! ## What an action lacks that is supplied with something blank -/

/-- What is supplied for an action is blank, where its effect is empty without it. -/
inductive Action.Lacks (name : String) (e : Effect) : Supplied → ActionError → Prop
  | message {text : String} (hneeds : e.needsMessage = true) (hblank : Text.IsBlank text) :
    Lacks name e (.message text) (.missingMessage name e)
  | target {target : String} (hneeds : e.needsTarget = true) (hblank : Text.IsBlank target) :
    Lacks name e (.target target) (.missingTarget name e)

namespace Action

theorem present_some_eq_none_iff {text : String} :
    Text.present (some text) = none ↔ Text.IsBlank text := by
  simp [Text.present, Option.filter_eq_none_iff]

theorem effect_of_known {a : Action} {e : Effect} (h : a.knownEffect = .ok e) :
    a.effect =
      if e.needsMessage = true ∧ a.message? = none then .error (.missingMessage a.name e)
      else if e.needsTarget = true ∧ a.target? = none then .error (.missingTarget a.name e)
      else .ok e := by
  unfold effect
  rw [h]

/-- An action that has what it needs is of a known type, and a message and a target are there where
its effect is empty without them. -/
theorem needs_of_effect {a : Action} {e : Effect} (h : a.effect = .ok e) :
    a.knownEffect = .ok e ∧ ¬ (e.needsMessage = true ∧ a.message? = none) ∧
      ¬ (e.needsTarget = true ∧ a.target? = none) := by
  cases hknown : a.knownEffect with
  | error cause =>
    rw [effect, hknown] at h
    cases h
  | ok e' =>
    rw [effect_of_known hknown] at h
    split_ifs at h with hmessage htarget
    cases h
    exact ⟨rfl, hmessage, htarget⟩

/-- **What is supplied for an action that has what it needs** leaves it with the same effect, but
for what is blank. -/
theorem effect_supply {a : Action} {e : Effect} (h : a.effect = .ok e) (supplied : Supplied) :
    (∃ lack, Lacks a.name e supplied lack ∧ (a.supply supplied).effect = .error lack) ∨
      (∀ lack, ¬ Lacks a.name e supplied lack) ∧ (a.supply supplied).effect = .ok e := by
  obtain ⟨hknown, hmessage, htarget⟩ := needs_of_effect h
  rw [← a.knownEffect_supply supplied] at hknown
  have heffect := effect_of_known hknown
  rw [name_supply] at heffect
  cases supplied with
  | nothing => exact .inr ⟨nofun, h⟩
  | message text =>
    have hmissing : (a.supply (.message text)).message? = none ↔ Text.IsBlank text :=
      present_some_eq_none_iff
    by_cases hlack : e.needsMessage = true ∧ (a.supply (.message text)).message? = none
    · exact .inl ⟨_, .message hlack.1 (hmissing.1 hlack.2), heffect.trans (if_pos hlack)⟩
    · refine .inr ⟨?_, heffect.trans ((if_neg hlack).trans (if_neg htarget))⟩
      rintro _ ⟨hneeds, hblank⟩
      exact hlack ⟨hneeds, hmissing.2 hblank⟩
  | target target =>
    have hmissing : (a.supply (.target target)).target? = none ↔ Text.IsBlank target :=
      present_some_eq_none_iff
    have hsame := heffect.trans (if_neg hmessage)
    by_cases hlack : e.needsTarget = true ∧ (a.supply (.target target)).target? = none
    · exact .inl ⟨_, .target hlack.1 (hmissing.1 hlack.2), hsame.trans (if_pos hlack)⟩
    · refine .inr ⟨?_, hsame.trans (if_neg hlack)⟩
      rintro _ (_ | ⟨hneeds, hblank⟩)
      exact hlack ⟨hneeds, hmissing.2 hblank⟩

/-- An action lacks one thing at most. -/
theorem Lacks.unique {name : String} {e : Effect} {supplied : Supplied} {lack other : ActionError}
    (h : Lacks name e supplied lack) (h' : Lacks name e supplied other) : other = lack := by
  cases h <;> cases h' <;> rfl

/-- Running an action fails where it lacks something, or where nobody takes its message. -/
theorem result_perform_eq_error_iff {accepts : String → Bool} {a : Action} {cause : ActionError} :
    (a.perform accepts).result = .error cause ↔
      a.effect = .error cause ∨
        a.effect = .ok .sendMessage ∧ accepts (a.target?.getD "") = false ∧
          .undelivered (a.target?.getD "") = cause := by
  unfold perform
  cases a.effect with
  | error lack => simp [Outcome.failed]
  | ok e =>
    cases e with
    | sendMessage => cases h : accepts (a.target?.getD "") <;> simp [h]
    | _ => simp

end Action

/-- **Why firing an action of a clean conversation may fail**: what a tag supplies for it is blank
where it is needed, or nobody takes the message. -/
theorem Conversation.Clean.result_performNamed_eq_error_iff {c : Conversation} (h : c.Clean)
    {name : String} {supplied : Supplied} (hfires : c.Fires name supplied) :
    ∃ a e, c.action? name = some a ∧ a.effect? = some e ∧
      ∀ (accepts : String → Bool) (cause : ActionError),
        (Action.performNamed accepts c.actions name supplied).result = .error cause ↔
          Action.Lacks name e supplied cause ∨
            (∀ lack, ¬ Action.Lacks name e supplied lack) ∧ e = .sendMessage ∧
              accepts ((a.supply supplied).target?.getD "") = false ∧
              .undelivered ((a.supply supplied).target?.getD "") = cause := by
  obtain ⟨a, e, ha, rfl, he⟩ := h.exists_action hfires
  refine ⟨a, e, ha, ?_, fun accepts cause => ?_⟩
  · exact Action.knownEffect_eq_ok_iff.1 (Action.needs_of_effect he).1
  have hperform : Action.performNamed accepts c.actions a.name supplied =
      (a.supply supplied).perform accepts := by
    unfold Action.performNamed
    rw [show c.actions.find? (·.name == a.name) = some a from ha]
  rw [hperform, Action.result_perform_eq_error_iff]
  obtain ⟨lack, hlack, heffect⟩ | ⟨hnone, heffect⟩ := Action.effect_supply he supplied
  · rw [heffect]
    constructor
    · rintro (hcause | ⟨hok, -⟩)
      · cases hcause
        exact .inl hlack
      · cases hok
    · rintro (hcause | ⟨hnone, -⟩)
      · exact .inl (congrArg _ (hcause.unique hlack))
      · exact absurd hlack (hnone lack)
  · rw [heffect]
    constructor
    · rintro (hcause | ⟨hok, hrest⟩)
      · cases hcause
      · cases hok
        exact .inr ⟨hnone, rfl, hrest⟩
    · rintro (hcause | ⟨-, rfl, hrest⟩)
      · exact absurd hcause (hnone cause)
      · exact .inr ⟨rfl, hrest⟩

end Colloquy
