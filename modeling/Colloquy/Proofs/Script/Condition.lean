import Colloquy.Conversation.Codec
import Mathlib.Data.List.Basic

/-!
# Proofs/Script/Condition — what is refused when a script is loaded could never have held

A condition is looked at twice: it is checked when its script is loaded (`Condition.audit`), and its
truth is asked for when the script is to start (`Condition.evaluate`). The check goes by the kinds
that operands declare (`Operand.Declares`), evaluation by the values that they have. The two agree
since the value of a literal is of the kind it declares: where two values compare as asked, the
kinds are such that the check lets them pass (`Condition.wellFormed_of_evaluate`).

A literal may come with a value that was read of it before, which evaluation takes without asking.
None does that is read from JSON (`Condition.literal_of_ofJson`), and making a condition ready reads
each literal again.
-/

namespace Colloquy

/-! ## Kinds and values -/

namespace Kind

theorem equalityOnly_iff {k : Kind} : k.equalityOnly = true ↔ k = .bool ∨ k = .string := by
  cases k <;> simp [equalityOnly]

/-- A kind has a name. -/
theorem not_isBlank_of_ofName {name : String} {k : Kind} (h : ofName name = .ok k) :
    ¬ Text.IsBlank name := by
  intro hblank
  have hnone : (all.find? fun k => k.name == Text.lowerAscii "") = none := by decide
  rw [ofName, Text.trim_eq_empty_iff.2 hblank, hnone] at h
  cases h

end Kind

theorem Comparison.isEquality_iff {c : Comparison} :
    c.isEquality = true ↔ c = .equal ∨ c = .notEqual := by
  cases c <;> simp [isEquality]

/-- Truth values and texts are compared with their own kind only. -/
theorem Value.kind_eq_of_compare {a b : Value} {o : Ordering} (h : a.compare b = some o)
    (hk : a.kind.equalityOnly = true ∨ b.kind.equalityOnly = true) : a.kind = b.kind := by
  cases a <;> cases b <;>
    simp_all [kind, Kind.equalityOnly, compare, integer?, rank?]

/-! ## Lists in JSON -/

namespace Json

variable {α β : Type}

theorem exists_of_bind {x : Except Error α} {f : α → Except Error β} {b : β}
    (h : (x >>= f) = .ok b) : ∃ a, x = .ok a ∧ f a = .ok b := by
  cases x with
  | ok a => exact ⟨a, rfl, h⟩
  | error e => cases h

theorem exists_of_mem_readAll {reader : Json → Except Error α} :
    ∀ {js : List Json} {xs : List α}, readAll reader js = .ok xs →
      ∀ x ∈ xs, ∃ j, reader j = .ok x
  | [], xs, h, x, hx => by
      cases h
      cases hx
  | j :: js, xs, h, x, hx => by
      rw [readAll] at h
      cases hj : reader j with
      | error e => rw [hj] at h; cases h
      | ok a =>
        rw [hj] at h
        cases hjs : readAll reader js with
        | error e => rw [hjs] at h; cases h
        | ok as =>
          rw [hjs] at h
          obtain rfl := Except.ok.inj h
          rcases List.mem_cons.1 hx with rfl | hx
          · exact ⟨j, hj⟩
          · exact exists_of_mem_readAll hjs x hx

/-- A member of a list that is read is read itself. -/
theorem exists_of_mem_read {fs : Fields} {name : String} {reader : Json → Except Error α}
    {xs : List α} (h : fs.read name [] (asList reader) = .ok xs) :
    ∀ x ∈ xs, ∃ j, reader j = .ok x := by
  intro x hx
  unfold Fields.read at h
  split at h
  case h_1 j _ =>
    cases j with
    | array js => exact exists_of_mem_readAll h x hx
    | _ => cases h
  case h_2 =>
    cases h
    cases hx

end Json

/-! ## Operands -/

namespace Operand

/-- The value that a literal writes: its text is not empty and its kind is known. -/
def Writes (o : Operand) (v : Value) : Prop :=
  ∃ raw name kind, o.value = some raw ∧ raw ≠ "" ∧ o.kind = some name ∧
    Kind.ofName name = .ok kind ∧ kind.parse raw = .ok v

/-- An operand is the variable of a name, whose kind is not known yet, or a literal, which has the
kind of its value. -/
inductive Declares (o : Operand) : Option Kind → Prop
  | ofVariable {name : String} (hs : o.fromStore = true) (hn : o.name = some name)
    (hb : ¬ Text.IsBlank name) : Declares o none
  | ofLiteral {v : Value} (hs : o.fromStore = false) (hv : o.Writes v) : Declares o (some v.kind)

theorem value?_eq_some_iff {o : Operand} {raw : String} :
    o.value? = some raw ↔ o.value = some raw ∧ raw ≠ "" := by
  rw [value?, Option.filter_eq_some_iff, decide_eq_true_iff]

theorem kind?_eq_some_iff {o : Operand} {name : String} :
    o.kind? = some name ↔ o.kind = some name ∧ ¬ Text.IsBlank name := Text.present_eq_some_iff

/-- A blank field is no field, and no kind has a blank name. -/
theorem writes_iff {o : Operand} {v : Value} :
    o.Writes v ↔ ∃ raw name kind, o.value? = some raw ∧ o.kind? = some name ∧
      Kind.ofName name = .ok kind ∧ kind.parse raw = .ok v := by
  simp only [value?_eq_some_iff, kind?_eq_some_iff]
  constructor
  · rintro ⟨raw, name, kind, hraw, hne, hname, hkind, hv⟩
    exact ⟨raw, name, kind, ⟨hraw, hne⟩, ⟨hname, Kind.not_isBlank_of_ofName hkind⟩, hkind, hv⟩
  · rintro ⟨raw, name, kind, ⟨hraw, hne⟩, ⟨hname, -⟩, hkind, hv⟩
    exact ⟨raw, name, kind, hraw, hne, hname, hkind, hv⟩

/-- What is read of a literal is what it writes. -/
theorem readLiteral_eq_some_iff {o : Operand} {v : Value} :
    o.readLiteral = some v ↔ o.Writes v := by
  rw [writes_iff, readLiteral]
  cases o.value? with
  | none => simp
  | some raw =>
    cases o.kind? with
    | none => simp
    | some name =>
      cases hkind : Kind.ofName name with
      | error e => simp [hkind, Except.bind, Except.toOption]
      | ok kind => cases hv : kind.parse raw <;> simp [hkind, hv, Except.bind, Except.toOption]

theorem name?_isSome_iff {o : Operand} :
    o.name?.isSome = true ↔ ∃ name, o.name = some name ∧ ¬ Text.IsBlank name := by
  rw [Option.isSome_iff_exists]
  exact exists_congr fun _ => Text.present_eq_some_iff

theorem result_audit_of_variable {o : Operand} (h : o.fromStore = true) {kind? : Option Kind} :
    o.audit.result = .ok kind? ↔
      (∃ name, o.name = some name ∧ ¬ Text.IsBlank name) ∧ none = kind? := by
  simp only [audit, h, if_true, Audit.result_seq_eq_ok_iff, Audit.result_require_eq_ok_iff,
    Audit.result_noteIf, Audit.result_pure, name?_isSome_iff, true_and, Except.ok.injEq]

theorem result_audit_of_literal {o : Operand} (h : o.fromStore = false) {kind? : Option Kind} :
    o.audit.result = .ok kind? ↔ ∃ v, o.Writes v ∧ some v.kind = kind? := by
  simp only [audit, h, Bool.false_eq_true, if_false, Audit.result_seq_eq_ok_iff,
    Audit.result_noteIf, true_and, writes_iff]
  cases o.value? with
  | none => simp
  | some raw =>
    cases o.kind? with
    | none => simp
    | some name =>
      simp only [Audit.result_bind_eq_ok_iff, Audit.result_mapError_eq_ok_iff,
        Audit.result_ofExcept, Audit.result_pure, Except.ok.injEq, Option.some.injEq]
      constructor
      · rintro ⟨kind, hkind, v, hv, rfl⟩
        exact ⟨v, ⟨raw, name, kind, rfl, rfl, hkind, hv⟩,
          congrArg some (Kind.kind_of_parse? (Kind.parse_eq_ok_iff.1 hv))⟩
      · rintro ⟨v, ⟨_, _, kind, rfl, rfl, hkind, hv⟩, rfl⟩
        exact ⟨kind, hkind, v, hv,
          congrArg some (Kind.kind_of_parse? (Kind.parse_eq_ok_iff.1 hv)).symm⟩

/-- The check finds out what an operand declares. -/
theorem result_audit_eq_ok_iff {o : Operand} {kind? : Option Kind} :
    o.audit.result = .ok kind? ↔ o.Declares kind? := by
  cases hs : o.fromStore with
  | true =>
    rw [result_audit_of_variable hs]
    constructor
    · rintro ⟨⟨name, hn, hb⟩, rfl⟩
      exact .ofVariable hs hn hb
    · rintro (⟨-, hn, hb⟩ | ⟨hs', -⟩)
      · exact ⟨⟨_, hn, hb⟩, rfl⟩
      · cases hs.symm.trans hs'
  | false =>
    rw [result_audit_of_literal hs]
    constructor
    · rintro ⟨v, hv, rfl⟩
      exact .ofLiteral hs hv
    · rintro (⟨hs', -, -⟩ | ⟨-, hv⟩)
      · cases hs.symm.trans hs'
      · exact ⟨_, hv, rfl⟩

/-- An operand declares one thing only. -/
theorem Declares.unique {o : Operand} {a b : Option Kind} (ha : o.Declares a)
    (hb : o.Declares b) : a = b :=
  Except.ok.inj ((result_audit_eq_ok_iff.2 ha).symm.trans (result_audit_eq_ok_iff.2 hb))

/-- The value of a literal, if it has been read, is the one that the literal writes. -/
def Faithful (o : Operand) : Prop :=
  o.fromStore = false → ∀ v, o.literal = some v → o.readLiteral = some v

theorem faithful_of_unread {o : Operand} (h : o.literal = none) : o.Faithful := by
  intro _ v hv
  rw [h] at hv
  cases hv

/-- An operand that is read from JSON is unread. -/
theorem literal_of_ofJson {j : Json} {o : Operand} (h : ofJson j = .ok o) : o.literal = none := by
  obtain ⟨fs, -, h⟩ := Json.exists_of_bind h
  obtain ⟨fromStore, -, h⟩ := Json.exists_of_bind h
  obtain ⟨name, -, h⟩ := Json.exists_of_bind h
  obtain ⟨value, -, h⟩ := Json.exists_of_bind h
  obtain ⟨kind, -, h⟩ := Json.exists_of_bind h
  obtain rfl := Except.ok.inj h
  rfl

theorem faithful_prepare (o : Operand) : o.prepare.Faithful := by
  unfold Faithful prepare
  cases hs : o.fromStore with
  | true => exact fun h => by cases hs.symm.trans h
  | false => exact fun _ _ h => h

/-- The check takes no account of what has been read of a literal. -/
theorem audit_prepare (o : Operand) : o.prepare.audit = o.audit := by
  unfold prepare
  split <;> rfl

theorem value_resolve_of_literal {o : Operand} (hs : o.fromStore = false) (hf : o.Faithful)
    (vars : Variables) : (o.resolve vars).value = o.readLiteral := by
  unfold resolve
  rw [hs, if_neg Bool.false_ne_true]
  cases hv : o.literal with
  | none => exact o.readOnDemand_eq_readLiteral
  | some v => exact (hf hs v hv).symm

/-- An operand that has a value declares something, and its kind is that of the value. -/
theorem Declares.of_resolve {o : Operand} (hf : o.Faithful) {vars : Variables} {v : Value}
    (h : (o.resolve vars).value = some v) :
    ∃ kind?, o.Declares kind? ∧ ∀ kind, kind? = some kind → kind = v.kind := by
  cases hs : o.fromStore with
  | true =>
    unfold resolve at h
    rw [hs, if_pos rfl] at h
    cases hname : o.name? with
    | none => rw [hname] at h; cases h
    | some name =>
      obtain ⟨hn, hb⟩ := Text.present_eq_some_iff.1 hname
      exact ⟨none, .ofVariable hs hn hb, nofun⟩
  | false =>
    rw [value_resolve_of_literal hs hf] at h
    exact ⟨_, .ofLiteral hs (readLiteral_eq_some_iff.1 h), fun _ hk => (Option.some.inj hk).symm⟩

end Operand

/-! ## Conditions -/

namespace Condition

/-- What makes a condition sensible. -/
structure WellFormed (c : Condition) : Prop where
  length_operands : c.operands.length = 2
  /-- Each operand is the variable of a name, or a literal that can be read. -/
  declares : ∀ o ∈ c.operands, ∃ kind?, o.Declares kind?
  /-- Truth values and texts are only ever asked to be equal or different. -/
  equality : ∀ o ∈ c.operands, ∀ kind, o.Declares (some kind) → kind = .bool ∨ kind = .string →
    c.comparison = .equal ∨ c.comparison = .notEqual
  /-- No literal of theirs goes with a literal of another kind. -/
  alike : ∀ o ∈ c.operands, ∀ p ∈ c.operands, ∀ a b, o.Declares (some a) → p.Declares (some b) →
    a = .bool ∨ a = .string → a = b

theorem result_auditKind_eq_ok_iff {comparison : Comparison} {kind? : Option Kind} :
    (auditKind comparison kind?).result = .ok () ↔
      ∀ kind, kind? = some kind → kind = .bool ∨ kind = .string →
        comparison = .equal ∨ comparison = .notEqual := by
  cases kind? with
  | none => simp [auditKind]
  | some kind =>
    simp [auditKind, Kind.equalityOnly_iff, Comparison.isEquality_iff]

theorem result_auditPair_eq_ok_iff {left? right? : Option Kind} :
    (auditPair left? right?).result = .ok () ↔
      ∀ a b, left? = some a → right? = some b →
        (a = .bool ∨ a = .string) ∨ (b = .bool ∨ b = .string) → a = b := by
  cases left? with
  | none => simp [auditPair]
  | some a =>
    cases right? with
    | none => simp [auditPair]
    | some b => simp [auditPair, Kind.equalityOnly_iff]

/-- What two operands declare, and how that goes together, is all that the check looks at. -/
theorem result_audit_of_operands {c : Condition} {l r : Operand} (h : c.operands = [l, r]) :
    c.audit.result = .ok () ↔ ∃ left right, l.Declares left ∧ r.Declares right ∧
      (auditKind c.comparison left).result = .ok () ∧
      (auditKind c.comparison right).result = .ok () ∧ (auditPair left right).result = .ok () := by
  unfold audit
  rw [h]
  constructor
  · intro hok
    obtain ⟨left, hl, hok⟩ := Audit.result_bind_eq_ok_iff.1 hok
    obtain ⟨right, hr, hok⟩ := Audit.result_bind_eq_ok_iff.1 hok
    obtain ⟨hkl, hok⟩ := Audit.result_seq_eq_ok_iff.1 hok
    obtain ⟨hkr, hpair⟩ := Audit.result_seq_eq_ok_iff.1 hok
    exact ⟨left, right, Operand.result_audit_eq_ok_iff.1 hl, Operand.result_audit_eq_ok_iff.1 hr,
      hkl, hkr, hpair⟩
  · rintro ⟨left, right, hl, hr, hkl, hkr, hpair⟩
    refine Audit.result_bind_eq_ok_iff.2 ⟨left, Operand.result_audit_eq_ok_iff.2 hl, ?_⟩
    refine Audit.result_bind_eq_ok_iff.2 ⟨right, Operand.result_audit_eq_ok_iff.2 hr, ?_⟩
    exact Audit.result_seq_eq_ok_iff.2 ⟨hkl, Audit.result_seq_eq_ok_iff.2 ⟨hkr, hpair⟩⟩

/-- What makes a condition on two operands sensible is known from what they declare. -/
theorem wellFormed_of_pair {c : Condition} {l r : Operand} {left right : Option Kind}
    (hops : c.operands = [l, r]) (hl : l.Declares left) (hr : r.Declares right)
    (hleft : ∀ kind, left = some kind → kind = .bool ∨ kind = .string →
      c.comparison = .equal ∨ c.comparison = .notEqual)
    (hright : ∀ kind, right = some kind → kind = .bool ∨ kind = .string →
      c.comparison = .equal ∨ c.comparison = .notEqual)
    (hpair : ∀ a b, left = some a → right = some b →
      (a = .bool ∨ a = .string) ∨ (b = .bool ∨ b = .string) → a = b) : c.WellFormed := by
  refine ⟨by rw [hops]; rfl, ?_, ?_, ?_⟩
  all_goals simp only [hops, List.forall_mem_cons, List.not_mem_nil, IsEmpty.forall_iff,
    implies_true, and_true]
  · exact ⟨⟨left, hl⟩, right, hr⟩
  · exact ⟨fun kind hd => hleft kind (hl.unique hd), fun kind hd => hright kind (hr.unique hd)⟩
  · refine ⟨⟨fun a b ha hb _ => ?_, fun a b ha hb hk => ?_⟩,
      fun a b ha hb hk => ?_, fun a b ha hb _ => ?_⟩
    · exact Option.some.inj (ha.unique hb)
    · exact hpair a b (hl.unique ha) (hr.unique hb) (.inl hk)
    · exact (hpair b a (hl.unique hb) (hr.unique ha) (.inr hk)).symm
    · exact Option.some.inj (ha.unique hb)

/-- The check lets the well-formed conditions pass, and no others. -/
theorem result_audit_eq_ok_iff {c : Condition} : c.audit.result = .ok () ↔ c.WellFormed := by
  constructor
  · intro h
    have hlen : c.operands.length = 2 := by
      unfold audit at h
      split at h
      case h_1 hops => rw [hops]; rfl
      case h_2 => cases h
    obtain ⟨l, r, hops⟩ := List.length_eq_two.1 hlen
    obtain ⟨left, right, hl, hr, hkl, hkr, hpair⟩ := (result_audit_of_operands hops).1 h
    exact wellFormed_of_pair hops hl hr (result_auditKind_eq_ok_iff.1 hkl)
      (result_auditKind_eq_ok_iff.1 hkr) (result_auditPair_eq_ok_iff.1 hpair)
  · intro h
    obtain ⟨l, r, hops⟩ := List.length_eq_two.1 h.length_operands
    have hml : l ∈ c.operands := by rw [hops]; exact List.mem_cons_self ..
    have hmr : r ∈ c.operands := by
      rw [hops]
      exact List.mem_cons_of_mem _ (List.mem_singleton_self r)
    obtain ⟨left, hl⟩ := h.declares l hml
    obtain ⟨right, hr⟩ := h.declares r hmr
    refine (result_audit_of_operands hops).2 ⟨left, right, hl, hr, ?_, ?_, ?_⟩
    · exact result_auditKind_eq_ok_iff.2 fun kind hk => h.equality l hml kind (hk ▸ hl)
    · exact result_auditKind_eq_ok_iff.2 fun kind hk => h.equality r hmr kind (hk ▸ hr)
    · refine result_auditPair_eq_ok_iff.2 fun a b ha hb hk => ?_
      rcases hk with hk | hk
      · exact h.alike l hml r hmr a b (ha ▸ hl) (hb ▸ hr) hk
      · exact (h.alike r hmr l hml b a (hb ▸ hr) (ha ▸ hl) hk).symm

theorem audit_prepare (c : Condition) : c.prepare.audit = c.audit := by
  obtain ⟨operands, comparison⟩ := c
  unfold audit prepare
  match operands with
  | [l, r] => simp only [List.map_cons, List.map_nil, Operand.audit_prepare]
  | [] | [_] | _ :: _ :: _ :: _ => simp

/-! ## Conditions read from JSON -/

/-- A condition that is read from JSON comes with its literals unread. -/
theorem literal_of_ofJson {j : Json} {c : Condition} (h : ofJson j = .ok c) :
    ∀ o ∈ c.operands, o.literal = none := by
  obtain ⟨fs, -, h⟩ := Json.exists_of_bind h
  obtain ⟨operands, hoperands, h⟩ := Json.exists_of_bind h
  obtain ⟨comparison, -, h⟩ := Json.exists_of_bind h
  obtain rfl := Except.ok.inj h
  intro o ho
  obtain ⟨k, hk⟩ := Json.exists_of_mem_read hoperands o ho
  exact Operand.literal_of_ofJson hk

/-! ## What holds -/

/-- Two values compare as asked only if they can be compared so. -/
theorem of_judge {comparison : Comparison} {a b : Value}
    (h : (judge comparison a b).value = true) :
    (∃ o, a.compare b = some o) ∧
      (a.kind.equalityOnly = true ∨ b.kind.equalityOnly = true →
        comparison.isEquality = true) := by
  unfold judge at h
  split at h
  case isTrue => cases h
  case isFalse hasked =>
    simp only [Bool.and_eq_true, Bool.or_eq_true, Bool.not_eq_true', not_and,
      Bool.not_eq_false] at hasked
    split at h
    case h_1 o ho => exact ⟨⟨o, ho⟩, hasked⟩
    case h_2 => cases h

/-- A condition that holds has two operands, whose values compare as asked. -/
theorem exists_of_evaluate {c : Condition} {vars : Variables}
    (h : (c.evaluate vars).value = true) :
    ∃ l r a b, c.operands = [l, r] ∧ (l.resolve vars).value = some a ∧
      (r.resolve vars).value = some b ∧ (judge c.comparison a b).value = true := by
  unfold evaluate at h
  split at h
  case h_2 => cases h
  case h_1 l r hops =>
    dsimp only at h
    split at h
    case h_2 => cases h
    case h_1 a b ha hb => exact ⟨l, r, a, b, hops, ha, hb, h⟩

/-- **A condition that holds is well formed**, if literals stand for what they write. -/
theorem wellFormed_of_evaluate {c : Condition} (hc : ∀ o ∈ c.operands, o.Faithful)
    {vars : Variables} (h : (c.evaluate vars).value = true) : c.WellFormed := by
  obtain ⟨l, r, a, b, hops, ha, hb, hjudge⟩ := exists_of_evaluate h
  obtain ⟨⟨o, hcompare⟩, hasked⟩ := of_judge hjudge
  simp only [hops, List.forall_mem_cons, List.not_mem_nil, IsEmpty.forall_iff,
      implies_true, and_true] at hc
  obtain ⟨left, hl, hla⟩ := Operand.Declares.of_resolve hc.1 ha
  obtain ⟨right, hr, hrb⟩ := Operand.Declares.of_resolve hc.2 hb
  refine wellFormed_of_pair hops hl hr (fun kind hkind hk => ?_) (fun kind hkind hk => ?_)
    fun k₁ k₂ h₁ h₂ hk => ?_
  · rw [hla kind hkind, ← Kind.equalityOnly_iff] at hk
    exact Comparison.isEquality_iff.1 (hasked (.inl hk))
  · rw [hrb kind hkind, ← Kind.equalityOnly_iff] at hk
    exact Comparison.isEquality_iff.1 (hasked (.inr hk))
  · rw [hla k₁ h₁, hrb k₂ h₂] at hk ⊢
    simp only [← Kind.equalityOnly_iff] at hk
    exact Value.kind_eq_of_compare hcompare hk

/-- **What is refused could never have held.** -/
theorem evaluate_of_refused {c : Condition} (hc : ∀ o ∈ c.operands, o.literal = none)
    {e : ConditionError} (h : c.audit.result = .error e) (vars : Variables) :
    (c.evaluate vars).value = false ∧ (c.prepare.evaluate vars).value = false := by
  have hrefused : ¬ c.WellFormed := by
    rw [← result_audit_eq_ok_iff, h]
    exact nofun
  constructor
  · refine Bool.eq_false_iff.2 fun htrue => hrefused ?_
    exact wellFormed_of_evaluate (fun o ho => Operand.faithful_of_unread (hc o ho)) htrue
  · refine Bool.eq_false_iff.2 fun htrue => hrefused ?_
    rw [← result_audit_eq_ok_iff, ← audit_prepare, result_audit_eq_ok_iff]
    refine wellFormed_of_evaluate (fun o ho => ?_) htrue
    obtain ⟨p, -, rfl⟩ := List.mem_map.1 ho
    exact p.faithful_prepare

/-- Whether a mood is at least as good as another cannot be asked, not even of one and the same. -/
theorem evaluate_of_refused_mood :
    let better := mk₂ (.ofVariable "mood") .greaterOrEqual (.ofLiteral "good" "string")
    let vars := (Variables.empty.register "mood" (.string "good")).vars
    (∀ o ∈ better.operands, o.literal = none) ∧
      better.audit.result = .error (.orderedEqualityKind .string .greaterOrEqual) ∧
      (better.evaluate vars).value = false ∧ (better.prepare.evaluate vars).value = false := by
  intro better vars
  have hunread : ∀ o ∈ better.operands, o.literal = none := by decide
  have hrefused : better.audit.result = .error (.orderedEqualityKind .string .greaterOrEqual) := by
    decide +kernel
  exact ⟨hunread, hrefused, evaluate_of_refused hunread hrefused vars⟩

end Condition

end Colloquy
