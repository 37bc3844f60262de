import Colloquy.Proofs.Script.Stock

/-!
# Proofs/Script/Preparation — making a condition ready does not change what it says

The value of a literal is found in two ways. As long as the literal is unread, its text is read
whenever a condition is evaluated; once the condition has been made ready, the value lies at hand.
The two look up what a script declares in different orders, and stop at different points if
something is missing. Either way it is the value that the literal writes (`Operand.Kept`), so that
evaluation comes to the same, down to its notes, whatever operands a condition has
(`Condition.evaluate_prepare`).
-/

namespace Colloquy

namespace Operand

/-- An operand that carries no value, and the same one made ready. -/
structure Kept (o p : Operand) : Prop where
  /-- The fields that a script writes stay as they are, and so does all of a variable. -/
  readied : o.Readied p
  /-- It has the same value, and the same is noted. -/
  resolve : ∀ vars, p.resolve vars = o.resolve vars
  /-- A literal carries the value that it has unread, if it has one. -/
  literal : o.fromStore = false → ∀ vars, p.literal = (o.resolve vars).value
  /-- That is the one which it writes. -/
  writes : o.fromStore = false → ∀ v, p.literal = some v ↔ o.Writes v

theorem prepare_prepare (o : Operand) : o.prepare.prepare = o.prepare := by
  cases hs : o.fromStore with
  | true => rw [prepare_of_variable hs, prepare_of_variable hs]
  | false =>
    rw [prepare_of_literal hs]
    exact prepare_of_literal (o := { o with literal := o.readLiteral }) hs

/-- To find the value of a literal takes no variables and no notes, be it read by then or not. -/
theorem resolve_of_literal {o : Operand} (hs : o.fromStore = false) (hf : o.Faithful)
    (vars : Variables) : o.resolve vars = ⟨o.readLiteral, []⟩ := by
  unfold resolve
  rw [hs, if_neg Bool.false_ne_true]
  cases hv : o.literal with
  | none => rw [o.readOnDemand_eq_readLiteral]
  | some v => rw [hf hs v hv]

theorem resolve_prepare {o : Operand} (h : o.literal = none) (vars : Variables) :
    o.prepare.resolve vars = o.resolve vars := by
  cases hs : o.fromStore with
  | true => rw [prepare_of_variable hs]
  | false =>
    have hread := o.faithful_prepare
    rw [prepare_of_literal hs] at hread ⊢
    rw [resolve_of_literal hs (faithful_of_unread h)]
    exact resolve_of_literal (o := { o with literal := o.readLiteral }) hs hread vars

theorem kept_prepare {o : Operand} (h : o.literal = none) : o.Kept o.prepare where
  readied := o.readied_prepare
  resolve := resolve_prepare h
  literal hs vars := by rw [prepare_of_literal hs, resolve_of_literal hs (faithful_of_unread h)]
  writes hs v := by rw [prepare_of_literal hs, readLiteral_eq_some_iff]

end Operand

namespace Condition

theorem prepare_prepare (c : Condition) : c.prepare.prepare = c.prepare := by
  unfold prepare
  rw [List.map_map]
  exact congrArg (mk · c.comparison) (List.map_congr_left fun o _ => o.prepare_prepare)

/-- Evaluation looks at nothing of its operands but their values. -/
theorem evaluate_map {f : Operand → Operand} {operands : List Operand} {vars : Variables}
    (hf : ∀ o ∈ operands, (f o).resolve vars = o.resolve vars) (comparison : Comparison) :
    evaluate ⟨operands.map f, comparison⟩ vars = evaluate ⟨operands, comparison⟩ vars := by
  match operands with
  | [] => rfl
  | [_] => rfl
  | [l, r] =>
    have hl : (f l).resolve vars = l.resolve vars := hf l (by simp)
    have hr : (f r).resolve vars = r.resolve vars := hf r (by simp)
    simp only [evaluate, List.map_cons, List.map_nil, hl, hr]
  | _ :: _ :: _ :: rest => simp only [evaluate, List.map_cons, List.length_cons, List.length_map]

/-- **Making a condition ready does not change what it says**, however many operands it has and
whatever they write; and a literal carries a value then exactly if it writes one, namely that. -/
theorem evaluate_prepare {c : Condition} (hc : ∀ o ∈ c.operands, o.literal = none) :
    (∀ vars, c.prepare.evaluate vars = c.evaluate vars) ∧ c.prepare.prepare = c.prepare ∧
      c.prepare.comparison = c.comparison ∧
      List.Forall₂ Operand.Kept c.operands c.prepare.operands := by
  refine ⟨fun vars => ?_, c.prepare_prepare, rfl, ?_⟩
  · exact evaluate_map (fun o ho => Operand.resolve_prepare (hc o ho) vars) c.comparison
  · refine List.forall₂_map_right_iff.2 (List.forall₂_same.2 fun o ho => ?_)
    exact Operand.kept_prepare (hc o ho)

/-- Whether there is gold enough is so before the literal is read, and after. -/
theorem evaluate_prepare_gold :
    let rich := mk₂ (.ofVariable "gold") .greaterOrEqual (.ofLiteral " 7" "Int")
    (∀ o ∈ rich.operands, o.literal = none) ∧
      rich.prepare.operands.map (·.literal) = [none, some (.int 7)] ∧
      (rich.evaluate (Variables.empty.register "gold" (.short 8)).vars).value = true ∧
      (∀ vars, rich.prepare.evaluate vars = rich.evaluate vars) ∧
      rich.prepare.prepare = rich.prepare ∧ rich.prepare.comparison = rich.comparison ∧
      List.Forall₂ Operand.Kept rich.operands rich.prepare.operands := by
  intro rich
  have hunread : ∀ o ∈ rich.operands, o.literal = none := by decide
  exact ⟨hunread, by decide +kernel, by decide +kernel, evaluate_prepare hunread⟩

end Condition

end Colloquy
