import Colloquy.Comparison
import Colloquy.Variables

/-!
# Condition — start conditions

A condition compares two operands, each a variable or a literal. `Condition.audit` is the check made
when a script is loaded, `Condition.prepare` reads the literals once and for all, and
`Condition.evaluate` gives the truth of a condition for some variables. A literal that was not read
by then is read as it is needed, to the same value (`Operand.readOnDemand_eq_readLiteral`). Whatever
keeps two operands from being compared makes a condition false, with a note.
-/

namespace Colloquy

/-- One side of a condition, as a script writes it: the variable of a name, or a text with the name
of its kind. -/
structure Operand where
  fromStore : Bool := false
  name : Option String := none
  value : Option String := none
  kind : Option String := none
  /-- The value of a literal, once it has been read. -/
  literal : Option Value := none
deriving DecidableEq

namespace Operand

/-- The variable of a name. -/
def ofVariable (name : String) : Operand := { fromStore := true, name := some name }

/-- A literal of a declared kind. -/
def ofLiteral (value kind : String) : Operand := { value := some value, kind := some kind }

/-- The name, unless it is blank. -/
def name? (o : Operand) : Option String := Text.present o.name

/-- The text of a literal, unless it is empty. -/
def value? (o : Operand) : Option String := o.value.filter (· ≠ "")

/-- The declared kind, unless it is blank. -/
def kind? (o : Operand) : Option String := Text.present o.kind

/-- The value that the literal writes. Its text and the name of its kind are looked up first. -/
def readLiteral (o : Operand) : Option Value :=
  match o.value?, o.kind? with
  | some raw, some name => ((Kind.ofName name).bind fun kind => kind.parse raw).toOption
  | _, _ => none

/-- The operand with its literal read. -/
def prepare (o : Operand) : Operand :=
  if o.fromStore then o else { o with literal := o.readLiteral }

/-- The value that the literal writes, where it has not been read before. Its kind is found first,
and its text is looked up only if there is such a kind. -/
def readOnDemand (o : Operand) : Option Value := do
  let name ← o.kind?
  let kind ← (Kind.ofName name).toOption
  let raw ← o.value?
  (kind.parse raw).toOption

/-- The value of the operand for some variables. -/
def resolve (o : Operand) (vars : Variables) : Noted (Option Value) :=
  if o.fromStore then
    match o.name? with
    | some name => vars.retrieve name
    | none => ⟨none, []⟩
  else
    match o.literal with
    | some v => ⟨some v, []⟩
    | none => ⟨o.readOnDemand, []⟩

/-- **A literal is read as the same value at either time**, or at neither. -/
theorem readOnDemand_eq_readLiteral (o : Operand) : o.readOnDemand = o.readLiteral := by
  unfold readOnDemand readLiteral
  cases o.kind? with
  | none => cases o.value? <;> rfl
  | some name =>
    cases o.value? with
    | none => simp
    | some raw =>
      simp only [Option.bind_eq_bind, Option.bind_some]
      cases Kind.ofName name <;> rfl

end Operand

/-- Why a condition is refused. -/
inductive ConditionError
  | operandCount (count : Nat)
  | missingName
  | missingValue
  | missingKind
  | value (cause : ValueError)
  | orderedEqualityKind (kind : Kind) (comparison : Comparison)
  | incompatibleKinds (left right : Kind)
deriving DecidableEq, Repr

/-- The wording of an error. -/
def ConditionError.message : ConditionError → String
  | operandCount count =>
    "condition has " ++ toString count ++ " variables, expected exactly 2"
  | missingName => "condition variable reads from the store but has no name"
  | missingValue => "literal condition variable has no value"
  | missingKind => "literal condition variable has no type"
  | value cause => "condition variable: " ++ cause.message
  | orderedEqualityKind kind comparison =>
    kind.name ++ " operands only support == and !=, found " ++ comparison.symbol
  | incompatibleKinds left right => "cannot compare " ++ left.name ++ " with " ++ right.name

/-- Two operands and the comparison that must hold of them. A script may list any number of
operands; only two make a condition. -/
structure Condition where
  operands : List Operand
  comparison : Comparison
deriving DecidableEq

/-- Checks an operand and gives the kind of a literal. -/
def Operand.audit (o : Operand) : Audit ConditionError (Option Kind) :=
  if o.fromStore then do
    Audit.require (o.name?.isSome = true) .missingName
    Audit.noteIf (o.value?.isSome = true ∨ o.kind?.isSome = true)
      (.warning "condition variable reads from the store; its value and type are ignored")
    return none
  else do
    Audit.noteIf (o.name?.isSome = true)
      (.warning "literal condition variable has a name, which is ignored")
    match o.value?, o.kind? with
    | none, _ => Audit.fail .missingValue
    | some _, none => Audit.fail .missingKind
    | some raw, some name =>
      let kind ← (Audit.ofExcept (Kind.ofName name)).mapError .value
      let _ ← (Audit.ofExcept (kind.parse raw)).mapError .value
      return some kind

namespace Condition

/-- A comparison of two operands. -/
def mk₂ (left : Operand) (comparison : Comparison) (right : Operand) : Condition :=
  ⟨[left, right], comparison⟩

/-- A literal whose kind knows no order is only asked for equality. -/
def auditKind (comparison : Comparison) (kind? : Option Kind) : Audit ConditionError Unit :=
  match kind? with
  | some kind => Audit.require (kind.equalityOnly = true → comparison.isEquality = true)
      (.orderedEqualityKind kind comparison)
  | none => Audit.pass ()

/-- Two literals are of kinds that can be compared. -/
def auditPair (left? right? : Option Kind) : Audit ConditionError Unit :=
  match left?, right? with
  | some left, some right =>
    Audit.require (left.equalityOnly = true ∨ right.equalityOnly = true → left = right)
      (.incompatibleKinds left right)
  | _, _ => Audit.pass ()

/-- Checks a condition when its script is loaded. -/
def audit (c : Condition) : Audit ConditionError Unit :=
  match c.operands with
  | [l, r] => do
    let left ← l.audit
    let right ← r.audit
    auditKind c.comparison left
    auditKind c.comparison right
    auditPair left right
  | os => Audit.fail (.operandCount os.length)

/-- The condition with its literals read. -/
def prepare (c : Condition) : Condition :=
  { c with operands := c.operands.map Operand.prepare }

/-- Whether two values compare as asked, with a note if they cannot be compared so. -/
def judge (comparison : Comparison) (left right : Value) : Noted Bool :=
  if (left.kind.equalityOnly || right.kind.equalityOnly) && !comparison.isEquality then
    ⟨false, [.warning ("cannot apply " ++ comparison.symbol ++ " to " ++ left.kind.name ++
      " and " ++ right.kind.name ++ ", treating it as false")]⟩
  else
    match left.compare right with
    | some o => ⟨comparison.holds o, []⟩
    | none => ⟨false, [.warning ("cannot compare " ++ left.kind.name ++ " with " ++
        right.kind.name ++ ", treating condition as false")]⟩

/-- Whether a condition holds for some variables. -/
def evaluate (c : Condition) (vars : Variables) : Noted Bool :=
  match c.operands with
  | [l, r] =>
    let left := l.resolve vars
    let right := r.resolve vars
    match left.value, right.value with
    | some a, some b =>
      let verdict := judge c.comparison a b
      ⟨verdict.value, left.notes ++ right.notes ++ verdict.notes⟩
    | _, _ => ⟨false, left.notes ++ right.notes ++
        [.warning "condition operand could not be resolved, treating it as false"]⟩
  | os => ⟨false, [.warning ("condition has " ++ toString os.length ++
      " variables, treating it as false")]⟩

/-- Whether all conditions hold. The first that does not is the last one looked at. -/
def allHold (vars : Variables) : List Condition → Noted Bool
  | [] => ⟨true, []⟩
  | c :: cs =>
    let first := c.evaluate vars
    if first.value then
      let rest := allHold vars cs
      ⟨rest.value, first.notes ++ rest.notes⟩
    else first

/-- All conditions hold exactly when each does. -/
theorem allHold_eq_true_iff {vars : Variables} :
    ∀ {cs : List Condition},
      (allHold vars cs).value = true ↔ ∀ c ∈ cs, (c.evaluate vars).value = true
  | [] => by simp [allHold]
  | c :: cs => by
      rw [allHold, List.forall_mem_cons]
      split
      · rename_i h
        simp [h, @allHold_eq_true_iff vars]
      · rename_i h
        simp [h]

end Condition

end Colloquy
