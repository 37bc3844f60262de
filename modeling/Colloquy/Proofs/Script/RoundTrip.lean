import Colloquy.Proofs.Json.ReadBack
import Colloquy.Proofs.Script.Stock

/-!
# Proofs/Script/RoundTrip — writing a conversation undoes loading it

A record is written with all its fields in their order, so that each is found again
(`Json.record_object`). Writing leaves out the values that were read of literals and nothing else:
what is written of a conversation is read as the conversation with its literals unread
(`Conversation.ofText_toText`). Unread is also what a conversation was before it was made ready, so
making it ready again restores it (`Conversation.prepare_unread_prepare`), and the check lets it
pass as it did before. Main statement: `Library.load_toText_of_load`.
-/

namespace Colloquy

/-! ## Records -/

namespace Json

theorem knownMembers_eq_zip {known : List String} : ∀ {names : List String}
    {ms : List (Option String × Json)}, ms.map (·.1) = names.map some → names.Nodup →
      (∀ n ∈ names, n ∈ known) → knownMembers known ms = .ok (names.zip (ms.map (·.2)))
  | [], [], _, _, _ => rfl
  | n :: names, (k, j) :: ms, h, hnodup, hknown => by
      obtain ⟨rfl, hms⟩ := List.cons.inj h
      obtain ⟨hn, hnames⟩ := List.nodup_cons.1 hnodup
      obtain ⟨hmem, hrest⟩ := List.forall_mem_cons.1 hknown
      have hlookup : (names.zip (ms.map (·.2))).lookup n = none := by
        rw [List.lookup_eq_none_iff]
        rintro ⟨l, i⟩ hl
        exact bne_iff_ne.2 fun h => hn (h ▸ (List.of_mem_zip hl).1)
      rw [knownMembers, knownMembers_eq_zip hms hnames hrest]
      simp only [hmem, hlookup, if_true, Option.isSome_none, Bool.false_eq_true, if_false]
      rfl

/-- A record that is written with all its fields is read as these. -/
theorem record_object {names : List String} {ms : List (Option String × Json)}
    (h : ms.map (·.1) = names.map some) (hnodup : names.Nodup) :
    record names (object ms) = .ok (names.zip (ms.map (·.2))) :=
  knownMembers_eq_zip h hnodup fun _ => id

@[simp] theorem ok_bind {α β : Type} (a : α) (f : α → Except Error β) : (.ok a >>= f) = f a := rfl

@[simp] theorem asText_ofText (s : String) : asText (ofText s) = .ok s := rfl

@[simp] theorem asText?_ofText? : ∀ s? : Option String, asText? (ofText? s?) = .ok s?
  | some _ => rfl
  | none => rfl

@[simp] theorem asBool_bool (b : Bool) : asBool (bool b) = .ok b := rfl

@[simp] theorem asInt32_integer (n : Int32) : asInt32 (integer n.toInt) = .ok n := by
  rw [asInt32, if_pos ⟨n.minValue_le_toInt, n.toInt_le⟩, Int32.ofInt_toInt]

/-- A list is read as the list of what its items are read as. -/
theorem asList_array {α β : Type} {reader : Json → Except Error β} {writer : α → Json} {f : α → β}
    (h : ∀ a, reader (writer a) = .ok (f a)) :
    ∀ as : List α, asList reader (array (as.map writer)) = .ok (as.map f)
  | [] => rfl
  | a :: as => by
      have ih := asList_array h as
      rw [asList] at ih ⊢
      rw [List.map_cons, readAll, h, ih]
      rfl

/-- A list whose items are read as themselves is read as itself. -/
theorem asList_array_self {α : Type} {reader : Json → Except Error α} {writer : α → Json}
    (h : ∀ a, reader (writer a) = .ok a) (as : List α) :
    asList reader (array (as.map writer)) = .ok as := by
  rw [asList_array h, List.map_id']

end Json

open Json

/-! ## Scripts -/

/-- The operand without the value that was read of it. -/
def Operand.unread (o : Operand) : Operand := { o with literal := none }

/-- The condition without the values that were read of its literals. -/
def Condition.unread (c : Condition) : Condition :=
  { c with operands := c.operands.map Operand.unread }

/-- The dialogue without the values that were read of the literals in its conditions. -/
def Dialogue.unread (d : Dialogue) : Dialogue :=
  { d with conditions := d.conditions.map Condition.unread }

/-- The conversation without the values that were read of literals. -/
def Conversation.unread (c : Conversation) : Conversation :=
  { c with dialogues := c.dialogues.map Dialogue.unread }

theorem Comparison.ofJson_symbol (c : Comparison) : ofJson (ofText c.symbol) = .ok c := by
  cases c <;> decide

theorem Operand.ofJson_toJson (o : Operand) : ofJson o.toJson = .ok o.unread := by
  rw [ofJson, toJson, record_object rfl (by decide)]
  simp [Operand.fields, Fields.read, List.lookup_cons, unread, pure, Except.pure]

theorem Condition.ofJson_toJson (c : Condition) : ofJson c.toJson = .ok c.unread := by
  rw [ofJson, toJson, record_object rfl (by decide)]
  simp [Fields.read, Fields.require, List.lookup_cons, asList_array Operand.ofJson_toJson,
    Comparison.ofJson_symbol, unread, pure, Except.pure]

theorem Action.ofJson_toJson (a : Action) : ofJson a.toJson = .ok a := by
  rw [ofJson, toJson, record_object rfl (by decide)]
  simp [Fields.read, List.lookup_cons]

theorem Choice.ofJson_toJson (c : Choice) : ofJson c.toJson = .ok c := by
  rw [ofJson, toJson, record_object rfl (by decide)]
  simp [Fields.read, List.lookup_cons, asList_array_self asText_ofText]

theorem Dialogue.ofJson_toJson (d : Dialogue) : ofJson d.toJson = .ok d.unread := by
  rw [ofJson, toJson, record_object rfl (by decide)]
  simp [Dialogue.fields, Fields.read, Fields.require, List.lookup_cons,
    asList_array_self asText_ofText, asList_array_self Choice.ofJson_toJson,
    asList_array Condition.ofJson_toJson, unread, pure, Except.pure]

theorem asWord_background (b : Bool) :
    asWord backgroundWords (ofText (if b then "BACKGROUND" else "DEFAULT")) = .ok b := by
  cases b <;> decide

theorem Conversation.ofJson_toJson (c : Conversation) : ofJson c.toJson = .ok c.unread := by
  rw [ofJson, toJson, record_object rfl (by decide)]
  simp [Fields.read, List.lookup_cons, asList_array Dialogue.ofJson_toJson,
    asList_array_self Action.ofJson_toJson, asWord_background, unread, pure, Except.pure]

/-! ## Texts -/

theorem textual_ofText (s : String) : (ofText s).Textual := .string s

theorem textual_ofText? : ∀ s? : Option String, (ofText? s?).Textual
  | some s => .string s
  | none => .null

theorem textual_array {α : Type} {writer : α → Json} (h : ∀ a, (writer a).Textual)
    (as : List α) : (array (as.map writer)).Textual :=
  .array (List.forall_mem_map.2 fun a _ => h a)

theorem Operand.textual_toJson (o : Operand) : o.toJson.Textual :=
  .object (by simp) (by simp [textual_ofText?, Textual.bool])

theorem Condition.textual_toJson (c : Condition) : c.toJson.Textual :=
  .object (by simp) (by simp [textual_ofText, textual_array Operand.textual_toJson])

theorem Action.textual_toJson (a : Action) : a.toJson.Textual :=
  .object (by simp) (by simp [textual_ofText, textual_ofText?])

theorem Choice.textual_toJson (c : Choice) : c.toJson.Textual :=
  .object (by simp) (by simp [textual_ofText, Textual.integer, textual_array textual_ofText])

theorem Dialogue.textual_toJson (d : Dialogue) : d.toJson.Textual :=
  .object (by simp) (by
    simp [textual_ofText?, Textual.integer, Textual.bool, textual_array textual_ofText,
      textual_array Choice.textual_toJson, textual_array Condition.textual_toJson])

namespace Conversation

theorem textual_toJson (c : Conversation) : c.toJson.Textual :=
  .object (by simp) (by
    simp [textual_ofText, textual_array Dialogue.textual_toJson,
      textual_array Action.textual_toJson])

/-- **The text of a conversation is read as the conversation**, but for the values of literals. -/
theorem ofText_toText (c : Conversation) : ofText c.toText = .ok c.unread := by
  rw [ofText, toText, parse_toText c.textual_toJson, ok_bind, ofJson_toJson]

end Conversation

/-! ## Making ready again -/

theorem Operand.prepare_unread_prepare {o : Operand} (h : o.literal = none) :
    o.prepare.unread.prepare = o.prepare := by
  obtain ⟨fromStore, name, value, kind, literal⟩ := o
  cases h
  cases fromStore <;> rfl

theorem Condition.prepare_unread_prepare {c : Condition}
    (h : ∀ o ∈ c.operands, o.literal = none) : c.prepare.unread.prepare = c.prepare := by
  simp only [prepare, unread, List.map_map, mk.injEq, and_true]
  exact List.map_congr_left fun o ho => Operand.prepare_unread_prepare (h o ho)

theorem Dialogue.prepare_unread_prepare (background : Bool) {d : Dialogue}
    (h : ∀ c ∈ d.conditions, ∀ o ∈ c.operands, o.literal = none) :
    Conversation.prepareDialogue background (Conversation.prepareDialogue background d).unread =
      Conversation.prepareDialogue background d := by
  have hconditions : ((d.conditions.map Condition.prepare).map Condition.unread).map
      Condition.prepare = d.conditions.map Condition.prepare := by
    rw [List.map_map, List.map_map]
    exact List.map_congr_left fun c hc => Condition.prepare_unread_prepare (h c hc)
  have hproceed : (background || (background || d.autoProceed)) =
      (background || d.autoProceed) := by
    rw [← Bool.or_assoc, Bool.or_self]
  simp only [Conversation.prepareDialogue, unread, hconditions, hproceed]

/-- The conditions of a dialogue that is read from JSON come with their literals unread. -/
theorem Dialogue.literal_of_ofJson {j : Json} {d : Dialogue} (h : ofJson j = .ok d) :
    ∀ c ∈ d.conditions, ∀ o ∈ c.operands, o.literal = none := by
  obtain ⟨fs, -, h⟩ := exists_of_bind h
  obtain ⟨id, -, h⟩ := exists_of_bind h
  obtain ⟨nextId, -, h⟩ := exists_of_bind h
  obtain ⟨speaker, -, h⟩ := exists_of_bind h
  obtain ⟨sentences, -, h⟩ := exists_of_bind h
  obtain ⟨choices, -, h⟩ := exists_of_bind h
  obtain ⟨conditions, hconditions, h⟩ := exists_of_bind h
  obtain ⟨startingPoint, -, h⟩ := exists_of_bind h
  obtain ⟨autoProceed, -, h⟩ := exists_of_bind h
  obtain ⟨spriteSet, -, h⟩ := exists_of_bind h
  obtain ⟨startingSprite, -, h⟩ := exists_of_bind h
  obtain ⟨theme, -, h⟩ := exists_of_bind h
  obtain ⟨onFinished, -, h⟩ := exists_of_bind h
  obtain ⟨anchor, -, h⟩ := exists_of_bind h
  obtain rfl := Except.ok.inj h
  intro c hc
  obtain ⟨k, hk⟩ := exists_of_mem_read hconditions c hc
  exact Condition.literal_of_ofJson hk

namespace Conversation

/-- No literal of the conversation has been read. -/
def Unread (c : Conversation) : Prop :=
  ∀ d ∈ c.dialogues, ∀ k ∈ d.conditions, ∀ o ∈ k.operands, o.literal = none

/-- What was made ready is the same again, if it is made ready once more with its literals
unread. -/
theorem prepare_unread_prepare {c : Conversation} (h : c.Unread) :
    c.prepare.value.unread.prepare.value = c.prepare.value := by
  simp only [prepare, unread, List.map_map, mk.injEq, and_true]
  exact List.map_congr_left fun d hd => Dialogue.prepare_unread_prepare c.background (h d hd)

theorem unread_of_ofText {text : String} {c : Conversation} (h : ofText text = .ok c) :
    c.Unread := by
  obtain ⟨j, -, h⟩ := exists_of_bind h
  obtain ⟨fs, -, h⟩ := exists_of_bind h
  obtain ⟨dialogues, hdialogues, h⟩ := exists_of_bind h
  obtain ⟨actions, -, h⟩ := exists_of_bind h
  obtain ⟨background, -, h⟩ := exists_of_bind h
  obtain rfl := Except.ok.inj h
  intro d hd
  obtain ⟨k, hk⟩ := exists_of_mem_read hdialogues d hd
  exact Dialogue.literal_of_ofJson hk

/-- The check takes no account of what has been read of literals. -/
theorem audit_unread {c : Conversation} (h : c.Unread) :
    c.prepare.value.unread.audit = c.prepare.value.audit := by
  rw [← audit_prepare, prepare_unread_prepare h]

end Conversation

/-! ## Libraries -/

theorem Registry.insert_insert {α : Type} (r : Registry α) (name : String) (a : α) :
    (r.insert name a).insert name a = r.insert name a := by
  refine ext_get? fun other => ?_
  rw [get?_insert]
  split
  case isTrue h => rw [get?_insert, if_pos h]
  case isFalse => rfl

namespace Library

/-- The text of what was loaded under a name can be loaded under it in any library. -/
theorem load_toText {l m : Library} {name text : String} {c : Conversation}
    (h : (l.load name text).result = .ok m) (hc : m.get? name = some c) (k : Library) :
    (k.load name c.toText).result = .ok ⟨k.scripts.insert name c⟩ := by
  obtain ⟨c₀, hread, hinsert⟩ := result_load_eq_ok_iff.1 h
  obtain ⟨hname, haudit, -⟩ := result_insert_eq_ok_iff.1 hinsert
  have hunread := Conversation.unread_of_ofText hread
  rw [get?_of_insert hinsert, if_pos rfl] at hc
  obtain rfl := Option.some.inj hc
  refine result_load_eq_ok_iff.2 ⟨_, Conversation.ofText_toText _, result_insert_eq_ok_iff.2 ?_⟩
  rw [Conversation.audit_unread hunread, Conversation.audit_prepare,
    Conversation.prepare_unread_prepare hunread]
  exact ⟨hname, haudit, rfl⟩

/-- **Loading what was written of a conversation that was loaded gives the same conversation**, in
any library, so that it is written the same again. The library it was loaded into stays as it
is. -/
theorem load_toText_of_load {l m : Library} {name text : String}
    (h : (l.load name text).result = .ok m) :
    ∃ c, m.get? name = some c ∧ (m.load name c.toText).result = .ok m ∧
      ∀ k : Library, ∃ n, (k.load name c.toText).result = .ok n ∧ n.get? name = some c ∧
        ∀ d, n.get? name = some d → d.toText = c.toText := by
  obtain ⟨c₀, -, hinsert⟩ := result_load_eq_ok_iff.1 h
  have hm := (result_insert_eq_ok_iff.1 hinsert).2.2
  have hc := get?_of_insert hinsert name
  rw [if_pos rfl] at hc
  refine ⟨c₀.prepare.value, hc, ?_, fun k => ?_⟩
  · rw [load_toText h hc, hm, Registry.insert_insert]
  · have hget := Registry.get?_insert k.scripts name c₀.prepare.value name
    rw [if_pos rfl] at hget
    refine ⟨_, load_toText h hc k, hget, fun d hd => ?_⟩
    rw [Option.some.inj (hd.symm.trans hget)]

/-- A script for the background, with a literal in a condition. -/
def wellScript : String :=
  "[[[0, -1, \"Well\", [\"Spla\\u0073h\"], [[\"Go\", -1, [\"wave\"]]], " ++
    "[[[[true, \"wet\"], [false, null, \"1\", \"int\"]], \"==\"]], true]], " ++
    "[[\"wave\", \"log\", \"\"]], \"background\"]"

theorem load_toText_of_load_well :
    ∃ m, (empty.load "well" wellScript).result = .ok m ∧
      ∃ c, m.get? "well" = some c ∧ (m.load "well" c.toText).result = .ok m ∧
        ∀ k : Library, ∃ n, (k.load "well" c.toText).result = .ok n ∧ n.get? "well" = some c ∧
          ∀ d, n.get? "well" = some d → d.toText = c.toText := by
  have hok : (empty.load "well" wellScript).result.isOk = true := by decide +kernel
  cases h : (empty.load "well" wellScript).result with
  | ok m => exact ⟨m, rfl, load_toText_of_load h⟩
  | error e =>
    rw [h] at hok
    cases hok

end Library

end Colloquy
