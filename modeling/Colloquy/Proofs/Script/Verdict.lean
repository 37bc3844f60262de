import Colloquy.Proofs.Number.Order
import Colloquy.Proofs.Script.Preparation

/-!
# Proofs/Script/Verdict — what conditions say of two operands

Of the six comparisons, those that hold of two operands are those that hold of one order
(`Condition.holding`): all that holds is said of the order in which the values stand, and nothing is
where they stand in none. Seen from the other side, the order is the reverse.

The check that a script passes has the literals of a condition be of kinds that compare, and so they
do, with one exception: the text of a decimal may say that it is no number.
-/

namespace Colloquy

namespace Comparison

theorem isEquality_swap (c : Comparison) : c.swap.isEquality = c.isEquality := by
  cases c <;> rfl

theorem isEquality_complement (c : Comparison) : c.complement.isEquality = c.isEquality := by
  cases c <;> rfl

end Comparison

/-! ## Which values compare -/

theorem Single.isSome_rank? (x : Single) : x.rank?.isSome = x.number?.isSome := by
  cases x <;> rfl

namespace Value

variable {a b : Value}

/-- What is not a number is a truth value, a text, or a decimal that is none. -/
theorem number?_eq_none_iff {v : Value} :
    v.number? = none ↔ v.kind.equalityOnly = true ∨ v = .float .nan := by
  cases v with
  | float x => cases x <;> simp [number?, Single.number?, kind, Kind.equalityOnly]
  | _ => simp [number?, integer?, kind, Kind.equalityOnly]

/-- Numbers compare, and so do two truth values and two texts. Nothing else does. -/
theorem isSome_compare_iff :
    (a.compare b).isSome = true ↔
      (a.number?.isSome = true ∧ b.number?.isSome = true) ∨
        (a.kind = b.kind ∧ a.kind.equalityOnly = true) := by
  cases a <;> cases b <;>
    simp only [compare, integer?, rank?, number?, ← Single.isSome_rank?, kind, Kind.equalityOnly,
      Option.map_some, Option.isSome_some, reduceCtorEq, Bool.false_eq_true]
  case float.float x y => cases x.rank? <;> cases y.rank? <;> simp
  all_goals simp
  all_goals cases Single.rank? _ <;> rfl

/-- **Seen from the other side, an order is the reverse**, and what does not compare does not
compare either way. -/
theorem compare_swap (a b : Value) : b.compare a = (a.compare b).map Ordering.swap := by
  by_cases h : (a.compare b).isSome = true
  · rcases isSome_compare_iff.1 h with ⟨ha, hb⟩ | ⟨hkind, honly⟩
    · obtain ⟨x, hx⟩ := Option.isSome_iff_exists.1 ha
      obtain ⟨y, hy⟩ := Option.isSome_iff_exists.1 hb
      obtain ⟨u, hu⟩ := exists_position hx
      obtain ⟨w, hw⟩ := exists_position hy
      exact hu.compare_swap hw
    · cases a <;> cases b <;> simp [kind, Kind.equalityOnly] at hkind honly
      · exact congrArg some Std.OrientedOrd.eq_swap
      · exact congrArg some Std.OrientedOrd.eq_swap
  · have hba : ¬ (b.compare a).isSome = true := by
      rw [isSome_compare_iff] at h ⊢
      rintro (⟨hb, ha⟩ | ⟨hkind, honly⟩)
      · exact h (.inl ⟨ha, hb⟩)
      · exact h (.inr ⟨hkind.symm, hkind ▸ honly⟩)
    rw [Option.not_isSome_iff_eq_none] at h hba
    rw [h, hba, Option.map_none]

end Value

namespace Condition

variable {l r : Operand} {c : Comparison} {vars : Variables} {a b : Value}

/-! ## Verdicts -/

/-- Whether a comparison may be asked of two values. -/
def Askable (c : Comparison) (a b : Value) : Prop :=
  a.kind.equalityOnly = true ∨ b.kind.equalityOnly = true → c.isEquality = true

theorem askable_swap_iff : Askable c.swap b a ↔ Askable c a b := by
  rw [Askable, Askable, Comparison.isEquality_swap, or_comm]

theorem Askable.complement (h : Askable c a b) : Askable c.complement a b :=
  fun hk => c.isEquality_complement.trans (h hk)

/-- Two values that compare have the verdict of their order, without a note. -/
theorem judge_of_compare {o : Ordering} (hask : Askable c a b) (ho : a.compare b = some o) :
    judge c a b = ⟨c.holds o, []⟩ := by
  unfold judge
  rw [if_neg, ho]
  rw [Bool.and_eq_true, Bool.or_eq_true, Bool.not_eq_true']
  exact fun ⟨hk, hc⟩ => Bool.false_ne_true (hc.symm.trans (hask hk))

/-- A verdict is that of an order in which the two values stand. -/
theorem value_judge_iff :
    (judge c a b).value = true ↔ Askable c a b ∧ ∃ o, a.compare b = some o ∧ c.holds o = true := by
  constructor
  · intro h
    obtain ⟨⟨o, ho⟩, hask⟩ := of_judge h
    rw [judge_of_compare hask ho] at h
    exact ⟨hask, o, ho, h⟩
  · rintro ⟨hask, o, ho, hholds⟩
    rw [judge_of_compare hask ho]
    exact hholds

theorem value_judge_swap (c : Comparison) (a b : Value) :
    (judge c.swap b a).value = (judge c a b).value := by
  rw [Bool.eq_iff_iff, value_judge_iff, value_judge_iff, askable_swap_iff, Value.compare_swap a b]
  refine and_congr_right fun _ => ⟨?_, ?_⟩
  · rintro ⟨o, ho, hholds⟩
    obtain ⟨o, ho', rfl⟩ := Option.map_eq_some_iff.1 ho
    exact ⟨o, ho', (c.holds_swap o).symm.trans hholds⟩
  · rintro ⟨o, ho, hholds⟩
    exact ⟨o.swap, Option.map_eq_some_iff.2 ⟨o, ho, rfl⟩, (c.holds_swap o).trans hholds⟩

theorem evaluate_of_resolve (ha : (l.resolve vars).value = some a)
    (hb : (r.resolve vars).value = some b) :
    (mk₂ l c r).evaluate vars = ⟨(judge c a b).value,
      (l.resolve vars).notes ++ (r.resolve vars).notes ++ (judge c a b).notes⟩ := by
  simp only [evaluate, mk₂, ha, hb]

/-- A condition holds of the values that its operands have. -/
theorem value_evaluate_iff : ((mk₂ l c r).evaluate vars).value = true ↔
    ∃ a b, (l.resolve vars).value = some a ∧ (r.resolve vars).value = some b ∧
      (judge c a b).value = true := by
  constructor
  · intro h
    obtain ⟨l', r', a, b, hops, ha, hb, hjudge⟩ := exists_of_evaluate h
    obtain ⟨rfl, rfl⟩ : l = l' ∧ r = r' := by simpa [mk₂] using hops
    exact ⟨a, b, ha, hb, hjudge⟩
  · rintro ⟨a, b, ha, hb, hjudge⟩
    rw [evaluate_of_resolve ha hb]
    exact hjudge

/-! ## The comparisons that hold -/

/-- The comparisons that hold of two operands. -/
def holding (l r : Operand) (vars : Variables) : List Comparison :=
  Comparison.all.filter fun c => ((mk₂ l c r).evaluate vars).value

theorem mem_holding_iff : c ∈ holding l r vars ↔ ((mk₂ l c r).evaluate vars).value = true := by
  rw [holding, List.mem_filter, and_iff_right c.mem_all]

theorem holding_eq_filter (ha : (l.resolve vars).value = some a)
    (hb : (r.resolve vars).value = some b) :
    holding l r vars = Comparison.all.filter fun c => (judge c a b).value :=
  List.filter_congr fun c _ => by rw [evaluate_of_resolve ha hb]

/-- Everything may be asked of numbers. -/
theorem askable_of_numbers (c : Comparison) (ha : a.number?.isSome = true)
    (hb : b.number?.isSome = true) : Askable c a b := by
  have hplain : ∀ {v : Value}, v.number?.isSome = true → v.kind.equalityOnly ≠ true := by
    intro v hv hk
    rw [Value.number?_eq_none_iff.2 (.inl hk)] at hv
    cases hv
  rintro (hk | hk)
  · exact absurd hk (hplain ha)
  · exact absurd hk (hplain hb)

/-- Of two numbers, all that holds of their order holds. -/
theorem holding_of_numbers {o : Ordering} (ha : (l.resolve vars).value = some a)
    (hb : (r.resolve vars).value = some b) (hna : a.number?.isSome = true)
    (hnb : b.number?.isSome = true) (ho : a.compare b = some o) :
    holding l r vars = Comparison.all.filter (·.holds o) := by
  rw [holding_eq_filter ha hb]
  exact List.filter_congr fun c _ => by rw [judge_of_compare (askable_of_numbers c hna hnb) ho]

/-- Of two truth values or two texts, only equality holds, or only difference. -/
theorem holding_of_alike {o : Ordering} (ha : (l.resolve vars).value = some a)
    (hb : (r.resolve vars).value = some b) (hk : a.kind.equalityOnly = true)
    (ho : a.compare b = some o) :
    holding l r vars = Comparison.all.filter fun c => c.isEquality && c.holds o := by
  rw [holding_eq_filter ha hb]
  refine List.filter_congr fun c _ => ?_
  rw [Bool.eq_iff_iff, value_judge_iff, Bool.and_eq_true]
  exact and_congr ⟨fun hask => hask (.inl hk), fun hc _ => hc⟩
    ⟨fun ⟨o', ho', hholds⟩ => Option.some.inj (ho'.symm.trans ho) ▸ hholds, fun h => ⟨o, ho, h⟩⟩

/-- What makes a condition sensible does not depend on which of its operands is named first. -/
theorem WellFormed.of_perm {c d : Condition} (hops : c.operands.Perm d.operands)
    (hequality : c.comparison.isEquality = d.comparison.isEquality) (h : c.WellFormed) :
    d.WellFormed where
  length_operands := hops.length_eq.symm.trans h.length_operands
  declares o ho := h.declares o (hops.mem_iff.2 ho)
  equality o ho kind hd hk := by
    rw [← Comparison.isEquality_iff, ← hequality, Comparison.isEquality_iff]
    exact h.equality o (hops.mem_iff.2 ho) kind hd hk
  alike o ho p hp := h.alike o (hops.mem_iff.2 ho) p (hops.mem_iff.2 hp)

theorem wellFormed_swap_iff : (mk₂ r c.swap l).WellFormed ↔ (mk₂ l c r).WellFormed :=
  ⟨.of_perm (.swap ..) c.isEquality_swap, .of_perm (.swap ..) c.isEquality_swap.symm⟩

theorem value_evaluate_swap (l r : Operand) (c : Comparison) (vars : Variables) :
    ((mk₂ r c.swap l).evaluate vars).value = ((mk₂ l c r).evaluate vars).value := by
  rw [Bool.eq_iff_iff, value_evaluate_iff, value_evaluate_iff]
  constructor
  · rintro ⟨b, a, hb, ha, hjudge⟩
    exact ⟨a, b, ha, hb, (value_judge_swap c a b).symm.trans hjudge⟩
  · rintro ⟨a, b, ha, hb, hjudge⟩
    exact ⟨b, a, hb, ha, (value_judge_swap c a b).trans hjudge⟩

/-- **All that holds of two operands is said of one order, and is the same from either side.** Only
of truth values and texts does one comparison hold alone. -/
theorem holding_cases (l r : Operand) (vars : Variables) :
    (holding l r vars = [] ∨
      (∃ a b, (l.resolve vars).value = some a ∧ (r.resolve vars).value = some b ∧
        a.number?.isSome = true ∧ b.number?.isSome = true ∧
        holding l r vars ∈ [[.less, .lessOrEqual, .notEqual],
          [.greater, .greaterOrEqual, .notEqual], [.greaterOrEqual, .lessOrEqual, .equal]]) ∨
      ∃ a b, (l.resolve vars).value = some a ∧ (r.resolve vars).value = some b ∧
        a.kind = b.kind ∧ (a.kind = .bool ∨ a.kind = .string) ∧
        holding l r vars ∈ [[.equal], [.notEqual]]) ∧
    ∀ c : Comparison,
      ((mk₂ r c.swap l).audit.result = .ok () ↔ (mk₂ l c r).audit.result = .ok ()) ∧
      ((mk₂ r c.swap l).evaluate vars).value = ((mk₂ l c r).evaluate vars).value := by
  constructor
  · refine or_iff_not_imp_left.2 fun hsome => ?_
    obtain ⟨c, hc⟩ := List.exists_mem_of_ne_nil _ hsome
    obtain ⟨a, b, ha, hb, hjudge⟩ := value_evaluate_iff.1 (mem_holding_iff.1 hc)
    obtain ⟨-, o, ho, -⟩ := value_judge_iff.1 hjudge
    rcases Value.isSome_compare_iff.1 (Option.isSome_of_eq_some ho) with ⟨hna, hnb⟩ | ⟨hkind, honly⟩
    · refine .inl ⟨a, b, ha, hb, hna, hnb, ?_⟩
      rw [holding_of_numbers ha hb hna hnb ho]
      cases o <;> decide
    · refine .inr ⟨a, b, ha, hb, hkind, Kind.equalityOnly_iff.1 honly, ?_⟩
      rw [holding_of_alike ha hb honly ho]
      cases o <;> decide
  · intro c
    rw [result_audit_eq_ok_iff, result_audit_eq_ok_iff]
    exact ⟨wellFormed_swap_iff, value_evaluate_swap l r c vars⟩

end Condition

/-! ## Decimals that are no number -/

theorem Single.nearest_ne_nan (negative : Bool) (num den : Nat) :
    nearest negative num den ≠ nan := by
  unfold nearest
  split <;> exact nofun

theorem Decimal.toSingle_ne_nan (d : Decimal) : d.toSingle ≠ .nan := by
  unfold toSingle
  split
  · exact Single.nearest_ne_nan d.negative _ _
  · exact nofun
  · exact nofun

/-- A decimal begins with a digit or a point. -/
theorem Decimal.magnitudeOfChars?_eq_none {c : Char} (hdigit : c.isDigit = false)
    (hpoint : c ≠ '.') (negative : Bool) (cs : List Char) :
    magnitudeOfChars? negative (c :: cs) = none := by
  have hwhole : (c :: cs).takeWhile Char.isDigit = [] :=
    List.takeWhile_cons_of_neg (by simp [hdigit])
  have hrest : (c :: cs).dropWhile Char.isDigit = c :: cs :=
    List.dropWhile_cons_of_neg (by simp [hdigit])
  simp [magnitudeOfChars?, hwhole, hrest, hpoint]

/-- What has a small letter for its lower case is a letter. -/
theorem Text.not_isDigit_of_toLower {c : Char} (h : 97 ≤ c.toLower.toNat) :
    c.isDigit = false ∧ c ≠ '.' := by
  have hc : 65 ≤ c.toNat := by
    by_cases hupper : 65 ≤ c.toNat ∧ c.toNat ≤ 90
    · exact hupper.1
    · rw [toLower_of_not_upper hupper] at h
      omega
  constructor
  · have hnine : '9'.toNat = 57 := rfl
    rw [Bool.eq_false_iff, ne_eq, Char.isDigit_iff_toNat]
    omega
  · rintro rfl
    exact absurd hc (by decide)

/-- A decimal that is no number is written by the word for it alone. -/
theorem Single.ofChars?_eq_nan_iff {cs : List Char} :
    ofChars? cs = some .nan ↔ String.ofList ((splitSign cs).2.map Char.toLower) = "nan" := by
  unfold ofChars?
  dsimp only
  split
  case h_1 d hd =>
    refine iff_of_false (fun h => d.toSingle_ne_nan (Option.some.inj h)) fun hword => ?_
    have hchars : (splitSign cs).2.map Char.toLower = "nan".toList := by
      rw [← hword, String.toList_ofList]
    obtain ⟨c, rest, hrest, hc, -⟩ := List.map_eq_cons_iff.1 hchars
    obtain ⟨hdigit, hpoint⟩ := Text.not_isDigit_of_toLower (c := c) (by rw [hc]; decide)
    rw [hrest, Decimal.magnitudeOfChars?_eq_none hdigit hpoint] at hd
    cases hd
  case h_2 =>
    generalize String.ofList ((splitSign cs).2.map Char.toLower) = word
    by_cases hinf : word = "inf" ∨ word = "infinity"
    · rw [if_pos hinf]
      refine iff_of_false nofun ?_
      rintro rfl
      revert hinf; decide
    · rw [if_neg hinf]
      split <;> simp [*]

/-! ## Literals -/

/-- Values of kinds that go together compare, unless one of them is no number. -/
theorem Value.compare_eq_none_iff {a b : Value}
    (halike : a.kind.equalityOnly = true ∨ b.kind.equalityOnly = true → a.kind = b.kind) :
    a.compare b = none ↔ a = .float .nan ∨ b = .float .nan := by
  rw [← Option.not_isSome_iff_eq_none, isSome_compare_iff]
  by_cases honly : a.kind.equalityOnly = true ∨ b.kind.equalityOnly = true
  · have hkind := halike honly
    have ha : a.kind.equalityOnly = true := honly.elim id fun h => hkind ▸ h
    refine iff_of_false (not_not_intro (.inr ⟨hkind, ha⟩)) ?_
    rintro (rfl | rfl)
    · cases ha
    · rw [hkind] at ha
      cases ha
  · obtain ⟨ha, hb⟩ := not_or.1 honly
    rw [or_iff_left fun h => ha h.2, not_and_or, Option.not_isSome_iff_eq_none,
      Option.not_isSome_iff_eq_none, number?_eq_none_iff, number?_eq_none_iff, or_iff_right ha,
      or_iff_right hb]

namespace Operand

variable {o : Operand}

/-- The literal writes a decimal that is no number. -/
def WritesNoNumber (o : Operand) : Prop :=
  ∃ raw name, o.value = some raw ∧ o.kind = some name ∧ Kind.ofName name = .ok .float ∧
    String.ofList ((splitSign (Text.trimChars raw.toList)).2.map Char.toLower) = "nan"

theorem writes_nan_iff : o.Writes (.float .nan) ↔ o.WritesNoNumber := by
  constructor
  · rintro ⟨raw, name, kind, hraw, -, hname, hkind, hv⟩
    rw [Kind.parse_eq_ok_iff] at hv
    obtain rfl : Kind.float = kind := Kind.kind_of_parse? hv
    obtain ⟨x, hx, hnan⟩ := Option.map_eq_some_iff.1 hv
    obtain rfl := Value.float.inj hnan
    exact ⟨raw, name, hraw, hname, hkind, Single.ofChars?_eq_nan_iff.1 hx⟩
  · rintro ⟨raw, name, hraw, hname, hkind, hword⟩
    refine ⟨raw, name, .float, hraw, ?_, hname, hkind, Kind.parse_eq_ok_iff.2 ?_⟩
    · rintro rfl
      revert hword
      decide
    · exact Option.map_eq_some_iff.2 ⟨.nan, Single.ofChars?_eq_nan_iff.2 hword, rfl⟩

instance : Decidable o.WritesNoNumber :=
  decidable_of_iff (o.readLiteral = some (.float .nan))
    (readLiteral_eq_some_iff.trans writes_nan_iff)

/-- A literal writes one value only. -/
theorem writesNoNumber_iff_of_writes {v : Value} (hv : o.Writes v) :
    o.WritesNoNumber ↔ v = .float .nan := by
  rw [← writes_nan_iff, ← readLiteral_eq_some_iff, readLiteral_eq_some_iff.2 hv, Option.some_inj]

/-- A literal declares the kind of the value that it writes. -/
theorem Declares.exists_writes {kind? : Option Kind} (h : o.Declares kind?)
    (hs : o.fromStore = false) : ∃ v, o.Writes v ∧ kind? = some v.kind := by
  cases h with
  | ofVariable hstore => cases hstore.symm.trans hs
  | ofLiteral _ hv => exact ⟨_, hv, rfl⟩

end Operand

namespace Condition

/-- The condition that holds where this one does not. -/
def complement (c : Condition) : Condition := { c with comparison := c.comparison.complement }

/-- The literals of a condition that is accepted are of kinds that go together. -/
theorem exists_writes_of_audit {l r : Operand} {c : Comparison}
    (haudit : (mk₂ l c r).audit.result = .ok ()) (hl : l.fromStore = false)
    (hr : r.fromStore = false) :
    ∃ a b, l.Writes a ∧ r.Writes b ∧ Askable c a b ∧
      (a.kind.equalityOnly = true ∨ b.kind.equalityOnly = true → a.kind = b.kind) := by
  obtain ⟨left, right, hleft, hright, hkl, hkr, hpair⟩ := (result_audit_of_operands rfl).1 haudit
  obtain ⟨a, ha, rfl⟩ := hleft.exists_writes hl
  obtain ⟨b, hb, rfl⟩ := hright.exists_writes hr
  rw [result_auditKind_eq_ok_iff] at hkl hkr
  refine ⟨a, b, ha, hb, fun hk => Comparison.isEquality_iff.2 ?_, fun hk => ?_⟩
  · exact hk.elim (fun h => hkl _ rfl (Kind.equalityOnly_iff.1 h))
      fun h => hkr _ rfl (Kind.equalityOnly_iff.1 h)
  · rw [Kind.equalityOnly_iff, Kind.equalityOnly_iff] at hk
    exact result_auditPair_eq_ok_iff.1 hpair _ _ rfl rfl hk

/-- Of two values that compare, a condition holds or its complement does. -/
theorem evaluate_complement_of_compare {l r : Operand} {c : Comparison} {vars : Variables}
    {a b : Value} {o : Ordering} (hl : l.resolve vars = ⟨some a, []⟩)
    (hr : r.resolve vars = ⟨some b, []⟩) (hask : Askable c a b) (ho : a.compare b = some o) :
    ((mk₂ l c r).evaluate vars).notes = [] ∧
      ((mk₂ l c.complement r).evaluate vars).notes = [] ∧
      ((mk₂ l c.complement r).evaluate vars).value = !((mk₂ l c r).evaluate vars).value := by
  have hvalue : ∀ {d : Comparison}, Askable d a b →
      (mk₂ l d r).evaluate vars = ⟨d.holds o, []⟩ := by
    intro d hd
    rw [evaluate_of_resolve (by rw [hl]) (by rw [hr]), judge_of_compare hd ho, hl, hr]
    rfl
  rw [hvalue hask, hvalue hask.complement]
  exact ⟨rfl, rfl, c.holds_complement o⟩

theorem evaluate_of_incomparable {l r : Operand} {c : Comparison} {vars : Variables}
    {a b : Value} (hl : l.resolve vars = ⟨some a, []⟩)
    (hr : r.resolve vars = ⟨some b, []⟩) (h : a.compare b = none) :
    ((mk₂ l c r).evaluate vars).value = false := by
  rw [Bool.eq_false_iff, ne_eq, evaluate_of_resolve (by rw [hl]) (by rw [hr]), value_judge_iff]
  rintro ⟨-, o, ho, -⟩
  cases h.symm.trans ho

/-- **Of two literals that a script may compare, a condition or its complement holds**, and not
both, unless one of the texts writes that it is no number: then neither does. -/
theorem evaluate_complement_of_literals {c : Condition} (haudit : c.audit.result = .ok ())
    (hlit : ∀ o ∈ c.operands, o.fromStore = false) (hf : ∀ o ∈ c.operands, o.Faithful) :
    ((∀ o ∈ c.operands, ¬ o.WritesNoNumber) → ∀ vars,
      (c.evaluate vars).notes = [] ∧ (c.complement.evaluate vars).notes = [] ∧
      (c.complement.evaluate vars).value = !(c.evaluate vars).value) ∧
    ((∃ o ∈ c.operands, o.WritesNoNumber) → ∀ vars,
      (c.evaluate vars).value = false ∧ (c.complement.evaluate vars).value = false) := by
  obtain ⟨l, r, hops⟩ := List.length_eq_two.1 (result_audit_eq_ok_iff.1 haudit).length_operands
  obtain ⟨operands, comparison⟩ := c
  obtain rfl : operands = [l, r] := hops
  simp only [List.mem_cons, List.not_mem_nil, or_false, forall_eq_or_imp, forall_eq,
    exists_eq_or_imp, exists_eq_left] at hlit hf ⊢
  obtain ⟨a, b, ha, hb, hask, halike⟩ := exists_writes_of_audit haudit hlit.1 hlit.2
  have hl : ∀ vars, l.resolve vars = ⟨some a, []⟩ := fun vars => by
    rw [Operand.resolve_of_literal hlit.1 hf.1, Operand.readLiteral_eq_some_iff.2 ha]
  have hr : ∀ vars, r.resolve vars = ⟨some b, []⟩ := fun vars => by
    rw [Operand.resolve_of_literal hlit.2 hf.2, Operand.readLiteral_eq_some_iff.2 hb]
  have hnone : a.compare b = none ↔ l.WritesNoNumber ∨ r.WritesNoNumber := by
    rw [Value.compare_eq_none_iff halike, Operand.writesNoNumber_iff_of_writes ha,
      Operand.writesNoNumber_iff_of_writes hb]
  constructor
  · intro hnumbers vars
    cases ho : a.compare b with
    | none => exact absurd (hnone.1 ho) (not_or.2 hnumbers)
    | some o => exact evaluate_complement_of_compare (hl vars) (hr vars) hask ho
  · intro hno vars
    have hcompare := hnone.2 hno
    exact ⟨evaluate_of_incomparable (hl vars) (hr vars) hcompare,
      evaluate_of_incomparable (hl vars) (hr vars) hcompare⟩

/-- Less than two is what one and a half is, and what no number is not. -/
theorem evaluate_complement_of_decimals :
    let two := Operand.ofLiteral "2" "int"
    let below := mk₂ (.ofLiteral " +1.5E0 " "Float") .less two
    let lost := mk₂ (.ofLiteral "-NaN" "float") .less two
    (below.audit.result = .ok () ∧ (∀ o ∈ below.operands, o.fromStore = false) ∧
      (∀ o ∈ below.operands, o.Faithful) ∧ (∀ o ∈ below.operands, ¬ o.WritesNoNumber) ∧
      ∀ vars, (below.evaluate vars).notes = [] ∧ (below.complement.evaluate vars).notes = [] ∧
        (below.complement.evaluate vars).value = !(below.evaluate vars).value) ∧
    (lost.audit.result = .ok () ∧ (∀ o ∈ lost.operands, o.fromStore = false) ∧
      (∀ o ∈ lost.operands, o.Faithful) ∧ (∃ o ∈ lost.operands, o.WritesNoNumber) ∧
      ∀ vars, (lost.evaluate vars).value = false ∧
        (lost.complement.evaluate vars).value = false) := by
  intro two below lost
  have hunread : ∀ c ∈ [below, lost], ∀ o ∈ c.operands, o.literal = none := by decide
  have hlit : ∀ c ∈ [below, lost], ∀ o ∈ c.operands, o.fromStore = false := by decide
  have haudit : ∀ c ∈ [below, lost], c.audit.result = .ok () := by decide +kernel
  have hnumbers : ∀ o ∈ below.operands, ¬ o.WritesNoNumber := by decide +kernel
  have hno : ∃ o ∈ lost.operands, o.WritesNoNumber := by decide +kernel
  have hf : ∀ c ∈ [below, lost], ∀ o ∈ c.operands, o.Faithful :=
    fun c hc o ho => Operand.faithful_of_unread (hunread c hc o ho)
  simp only [List.forall_mem_cons, List.not_mem_nil, IsEmpty.forall_iff, implies_true,
    and_true] at haudit hlit hf
  exact ⟨⟨haudit.1, hlit.1, hf.1, hnumbers,
      (evaluate_complement_of_literals haudit.1 hlit.1 hf.1).1 hnumbers⟩,
    haudit.2, hlit.2, hf.2, hno, (evaluate_complement_of_literals haudit.2 hlit.2 hf.2).2 hno⟩

/-- What no number is, is neither one nor anything but one. And a literal that comes with a value
that it does not write may be neither less than two nor anything else. -/
theorem neither_one_nor_another :
    let one := Operand.ofLiteral "1" "int"
    let lost := mk₂ (.ofLiteral "nan" "float") .equal one
    let stale := mk₂ { one with literal := some (.string "one") } .less (.ofLiteral "2" "int")
    ∀ c ∈ [lost, stale], c.audit.result = .ok () ∧ (∀ o ∈ c.operands, o.fromStore = false) ∧
      ∀ vars, (c.evaluate vars).value = false ∧ (c.complement.evaluate vars).value = false := by
  intro one lost stale
  rw [List.forall_mem_cons, List.forall_mem_singleton]
  exact ⟨⟨by decide +kernel, by decide, fun _ => ⟨rfl, rfl⟩⟩,
    ⟨by decide +kernel, by decide, fun _ => ⟨rfl, rfl⟩⟩⟩

end Condition

end Colloquy
