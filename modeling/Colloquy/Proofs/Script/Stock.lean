import Colloquy.Library
import Colloquy.Proofs.Script.WellFormed
import Mathlib.Data.List.Forall2

/-!
# Proofs/Script/Stock — what becomes of a library by any calls to it

A library is filled by calls that load texts and insert conversations, each of which may fail. Only
what passes the check is taken in, and it is made ready then: its literals are read, and in the
background it goes on by itself. Making ready comes after the check but does not change what the
check says (`Conversation.audit_prepare`), so that all that is ever found in a library is both
accepted and ready (`Conversation.Stocked`). `Library.kept_and_answers_afterAll` says this of every
sequence of calls, together with what one more call does.
-/

namespace Colloquy

/-! ## What making ready changes -/

/-- The same operand, except that a literal may have been read. -/
structure Operand.Readied (o p : Operand) : Prop where
  eq : p = { o with literal := p.literal }
  stored : o.fromStore = true → p = o

/-- The same condition, with the literals of its operands read. -/
structure Condition.Readied (k l : Condition) : Prop where
  comparison : l.comparison = k.comparison
  operands : List.Forall₂ Operand.Readied k.operands l.operands

/-- The same dialogue, except that it goes on by itself in the background and that literals of its
conditions may have been read. -/
structure Dialogue.Readied (background : Bool) (d e : Dialogue) : Prop where
  eq : e = { d with autoProceed := background || d.autoProceed, conditions := e.conditions }
  conditions : List.Forall₂ Condition.Readied d.conditions e.conditions

/-- The same conversation, with its dialogues made ready. -/
structure Conversation.Readied (c e : Conversation) : Prop where
  actions : e.actions = c.actions
  background : e.background = c.background
  dialogues : List.Forall₂ (Dialogue.Readied c.background) c.dialogues e.dialogues

theorem Operand.prepare_of_variable {o : Operand} (hs : o.fromStore = true) : o.prepare = o :=
  if_pos hs

theorem Operand.prepare_of_literal {o : Operand} (hs : o.fromStore = false) :
    o.prepare = { o with literal := o.readLiteral } :=
  if_neg (ne_true_of_eq_false hs)

theorem Operand.readied_prepare (o : Operand) : o.Readied o.prepare := by
  refine ⟨?_, prepare_of_variable⟩
  unfold prepare
  split <;> rfl

theorem Condition.readied_prepare (k : Condition) : k.Readied k.prepare :=
  ⟨rfl, List.forall₂_map_right_iff.2 (List.forall₂_same.2 fun o _ => o.readied_prepare)⟩

theorem Dialogue.readied_prepare (background : Bool) (d : Dialogue) :
    d.Readied background (Conversation.prepareDialogue background d) :=
  ⟨rfl, List.forall₂_map_right_iff.2 (List.forall₂_same.2 fun k _ => k.readied_prepare)⟩

theorem Conversation.readied_prepare (c : Conversation) : c.Readied c.prepare.value :=
  ⟨rfl, rfl, List.forall₂_map_right_iff.2
    (List.forall₂_same.2 fun d _ => d.readied_prepare c.background)⟩

/-! ## What making ready leaves alone -/

namespace Audit

theorem each_map {ε α β : Type} {f : β → Audit ε Unit} {g : α → β} :
    ∀ xs : List α, each (xs.map g) f = each xs fun x => f (g x)
  | [] => rfl
  | x :: xs => by rw [List.map_cons, each, each, each_map xs]

end Audit

namespace Conversation

theorem auditIds_map {f : Dialogue → Dialogue} (hf : ∀ d, (f d).id = d.id) :
    ∀ (ds : List Dialogue) (seen : List Int32), auditIds seen (ds.map f) = auditIds seen ds
  | [], _ => rfl
  | d :: ds, seen => by
      rw [List.map_cons, auditIds, auditIds, hf, auditIds_map hf ds]

variable (c : Conversation)

theorem ids_prepare : c.prepare.value.dialogues.map (·.id) = c.dialogues.map (·.id) := by
  simp only [prepare, List.map_map]
  rfl

theorem auditLink_prepare : c.prepare.value.auditLink = c.auditLink := by
  funext dialogue link?
  cases link? with
  | none => rfl
  | some id => simp only [auditLink, ids_prepare]

theorem auditChoice_prepare : c.prepare.value.auditChoice = c.auditChoice := by
  funext dialogue choice
  unfold auditChoice
  rw [auditLink_prepare]
  rfl

theorem auditDialogue_prepare (d : Dialogue) :
    c.prepare.value.auditDialogue (prepareDialogue c.background d) = c.auditDialogue d := by
  unfold auditDialogue
  rw [auditLink_prepare, auditChoice_prepare]
  simp only [prepareDialogue, Audit.each_map, Condition.audit_prepare]
  rfl

/-- **Making ready does not change what the check says**, nor its notes. -/
theorem audit_prepare : c.prepare.value.audit = c.audit := by
  have hdialogues : c.prepare.value.dialogues = c.dialogues.map (prepareDialogue c.background) :=
    rfl
  have hids : auditIds [] c.prepare.value.dialogues = auditIds [] c.dialogues :=
    auditIds_map (f := prepareDialogue c.background) (fun _ => rfl) c.dialogues []
  have heach : Audit.each c.prepare.value.dialogues c.prepare.value.auditDialogue =
      Audit.each c.dialogues c.auditDialogue := by
    rw [hdialogues, Audit.each_map]
    exact congrArg _ (funext c.auditDialogue_prepare)
  have hnone : c.prepare.value.dialogues = [] ↔ c.dialogues = [] := List.map_eq_nil_iff
  have hstart : (∀ d ∈ c.prepare.value.dialogues, d.startingPoint = false) ↔
      ∀ d ∈ c.dialogues, d.startingPoint = false := List.forall_mem_map
  unfold audit
  simp only [hids, heach, ne_eq, hnone, hstart]
  rfl

end Conversation

/-! ## What is found in a library -/

/-- What is found in a library: a conversation that is accepted and ready to play. -/
structure Conversation.Stocked (c : Conversation) : Prop where
  accepted : c.audit.result = .ok ()
  proceeds : c.background = true → ∀ d ∈ c.dialogues, d.autoProceed = true
  /-- A literal has the value that its text writes, read as the kind that it declares. -/
  read : ∀ d ∈ c.dialogues, ∀ k ∈ d.conditions, ∀ o ∈ k.operands, o.fromStore = false →
    ∃ v, o.literal = some v ∧ o.Writes v

/-- A literal that is accepted is read as what it writes. -/
theorem Operand.Declares.exists_literal_prepare {o : Operand} {kind? : Option Kind}
    (h : o.Declares kind?) (hs : o.fromStore = false) :
    ∃ v, o.prepare.literal = some v ∧ o.prepare.Writes v := by
  rw [prepare_of_literal hs]
  cases h with
  | ofVariable hs' => cases hs.symm.trans hs'
  | ofLiteral _ hv => exact ⟨_, readLiteral_eq_some_iff.2 hv, hv⟩

theorem Conversation.stocked_prepare {c : Conversation} (h : c.audit.result = .ok ()) :
    c.prepare.value.Stocked where
  accepted := by rw [c.audit_prepare, h]
  proceeds := by
    intro hb d hd
    obtain ⟨d, -, rfl⟩ := List.mem_map.1 hd
    have hbackground : c.background = true := hb
    simp only [prepareDialogue, hbackground, Bool.true_or]
  read := by
    intro d hd k hk o ho hs
    obtain ⟨d₀, hd₀, rfl⟩ := List.mem_map.1 hd
    obtain ⟨k₀, hk₀, rfl⟩ := List.mem_map.1 hk
    obtain ⟨o₀, ho₀, rfl⟩ := List.mem_map.1 ho
    have hk := (dialogueWellFormed_of_audit h hd₀).conditions k₀ hk₀
    obtain ⟨kind?, hkind⟩ := hk.declares o₀ ho₀
    rw [o₀.readied_prepare.eq] at hs
    exact hkind.exists_literal_prepare hs

namespace Library

/-- What is asked of a library. -/
inductive Call
  | load (name text : String)
  | insert (name : String) (c : Conversation)

/-- The name that a call is about. -/
def Call.name : Call → String
  | .load name _ | .insert name _ => name

/-- The conversation that a call hands over, unless its text writes none. -/
def Call.conversation : Call → Except Json.Error Conversation
  | .load _ text => Conversation.ofText text
  | .insert _ c => .ok c

/-- The answer to a call. -/
def call (l : Library) : Call → Audit LoadError Library
  | .load name text => l.load name text
  | .insert name c => l.insert name c

/-- The library after a call. It is left alone by a call that fails. -/
def after (l : Library) (k : Call) : Library :=
  match (l.call k).result with
  | .ok m => m
  | .error _ => l

/-- The library that calls make of an empty one. -/
def afterAll (ks : List Call) : Library := ks.foldl after empty

/-- Each entry has a name, and its conversation is accepted and ready. -/
def Kept (l : Library) : Prop :=
  ∀ name c, l.get? name = some c → ¬ Text.IsBlank name ∧ c.Stocked

/-- What a call does: if it fails nothing, and otherwise the conversation that it hands over, made
ready, is the entry of its name from then on. -/
structure Answers (l : Library) (k : Call) : Prop where
  accepts : (∃ m, (l.call k).result = .ok m) ↔
    ¬ Text.IsBlank k.name ∧ ∃ c, k.conversation = .ok c ∧ c.audit.result = .ok ()
  failed : ∀ e, (l.call k).result = .error e → ∀ name, (l.after k).get? name = l.get? name
  entered : ∀ m, (l.call k).result = .ok m → ∃ c e, k.conversation = .ok c ∧ c.Readied e ∧
    (l.after k).get? k.name = some e
  others : ∀ m, (l.call k).result = .ok m → ∀ name, name ≠ k.name →
    (l.after k).get? name = l.get? name

/-- Either way of calling is to insert the conversation that the call hands over. -/
theorem result_call_eq_ok_iff {l m : Library} {k : Call} : (l.call k).result = .ok m ↔
    ∃ c, k.conversation = .ok c ∧ (l.insert k.name c).result = .ok m := by
  cases k with
  | load name text => exact result_load_eq_ok_iff
  | insert name c =>
    refine ⟨fun h => ⟨c, rfl, h⟩, ?_⟩
    rintro ⟨c', hc, h⟩
    cases hc
    exact h

theorem after_of_ok {l m : Library} {k : Call} (h : (l.call k).result = .ok m) :
    l.after k = m := by
  rw [after, h]

theorem after_of_error {l : Library} {k : Call} {e : LoadError}
    (h : (l.call k).result = .error e) : l.after k = l := by
  rw [after, h]

/-- A call that succeeds finds a conversation that passes the check, under a name. -/
theorem get?_after {l m : Library} {k : Call} (h : (l.call k).result = .ok m) :
    ∃ c, k.conversation = .ok c ∧ ¬ Text.IsBlank k.name ∧ c.audit.result = .ok () ∧
      ∀ name, (l.after k).get? name =
        if k.name = name then some c.prepare.value else l.get? name := by
  obtain ⟨c, hc, hinsert⟩ := result_call_eq_ok_iff.1 h
  obtain ⟨hname, haudit, -⟩ := result_insert_eq_ok_iff.1 hinsert
  refine ⟨c, hc, hname, haudit, fun name => ?_⟩
  rw [after_of_ok h]
  exact get?_of_insert hinsert name

theorem kept_empty : empty.Kept := fun _ _ h => by cases h

theorem Kept.after {l : Library} (hl : l.Kept) (k : Call) : (l.after k).Kept := by
  intro name e he
  cases h : (l.call k).result with
  | error _ =>
    rw [after_of_error h] at he
    exact hl name e he
  | ok m =>
    obtain ⟨c, -, hname, haudit, hget⟩ := get?_after h
    rw [hget] at he
    split at he
    case isTrue heq =>
      cases he
      exact ⟨heq ▸ hname, Conversation.stocked_prepare haudit⟩
    case isFalse => exact hl name e he

theorem kept_afterAll (ks : List Call) : (afterAll ks).Kept :=
  List.foldlRecOn ks Library.after kept_empty fun _ hl k _ => hl.after k

/-- A library is stocked by calls that insert. -/
theorem stocked_eq_afterAll (entries : List (String × Conversation)) :
    stocked entries = afterAll (entries.map fun e => .insert e.1 e.2) := by
  rw [afterAll, List.foldl_map]
  rfl

theorem exists_ok_call_iff {l : Library} {k : Call} : (∃ m, (l.call k).result = .ok m) ↔
    ¬ Text.IsBlank k.name ∧ ∃ c, k.conversation = .ok c ∧ c.audit.result = .ok () := by
  simp only [result_call_eq_ok_iff, result_insert_eq_ok_iff]
  constructor
  · rintro ⟨m, c, hc, hname, haudit, -⟩
    exact ⟨hname, c, hc, haudit⟩
  · rintro ⟨hname, c, hc, haudit⟩
    exact ⟨_, c, hc, hname, haudit, rfl⟩

theorem answers (l : Library) (k : Call) : l.Answers k where
  accepts := exists_ok_call_iff
  failed e h name := by rw [after_of_error h]
  entered m h := by
    obtain ⟨c, hc, -, -, hget⟩ := get?_after h
    exact ⟨c, c.prepare.value, hc, c.readied_prepare, by rw [hget, if_pos rfl]⟩
  others m h name hne := by
    obtain ⟨c, -, -, -, hget⟩ := get?_after h
    rw [hget, if_neg hne.symm]

/-- **Whatever is asked of a library, its entries are accepted and ready**, and one more call
changes the entry of its name only, if any. -/
theorem kept_and_answers_afterAll (ks : List Call) :
    (afterAll ks).Kept ∧ ∀ k, (afterAll ks).Answers k :=
  ⟨kept_afterAll ks, (afterAll ks).answers⟩

end Library

end Colloquy
