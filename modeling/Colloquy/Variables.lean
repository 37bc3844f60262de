import Colloquy.Audit
import Colloquy.Registry
import Colloquy.Value

/-!
# Variables — the typed variables of a playback

`Variables` binds names to values and knows how many listeners hear of changes. Binding a name is
`register`, unbinding it is `remove`, and each change is told to every listener
(`Variables.announce`). Reading never fails: `retrieveAs` gives the zero of the kind asked for where
a variable is missing or of another kind, and takes a note. `get?` is the view of the bindings.
-/

namespace Colloquy

/-- The value read as another kind: the same kind, or a wider kind of whole number. -/
def Value.widen? : Value → Kind → Option Value
  | .short n, .short => some (.short n)
  | .short n, .int => some (.int n.toInt32)
  | .short n, .long => some (.long n.toInt64)
  | .int n, .int => some (.int n)
  | .int n, .long => some (.long n.toInt64)
  | .long n, .long => some (.long n)
  | .float x, .float => some (.float x)
  | .bool b, .bool => some (.bool b)
  | .string s, .string => some (.string s)
  | _, _ => none

theorem Value.kind_of_widen? {v w : Value} {k : Kind} (h : v.widen? k = some w) : w.kind = k := by
  cases v <;> cases k <;> cases h <;> rfl

theorem Value.widen?_kind (v : Value) : v.widen? v.kind = some v := by cases v <;> rfl

/-- Why a variable cannot be changed. -/
inductive VariableError
  | unreadable (name : String) (cause : ValueError)
  | notRegistered (name : String)
deriving DecidableEq, Repr

/-- The wording of an error. -/
def VariableError.message : VariableError → String
  | unreadable name cause => "cannot register variable '" ++ name ++ "': " ++ cause.message
  | notRegistered name => "variable '" ++ name ++ "' is not registered"

/-- Named values, and the number of listeners to their changes. -/
structure Variables where
  bindings : Registry Value
  listeners : Nat
deriving Inhabited

namespace Variables

/-- What comes of changing the variables: a result, the variables then, and what was observed. -/
structure Update (α : Type) where
  result : α
  vars : Variables
  trace : Trace

/-- No variables, and nobody listening. -/
def empty : Variables := ⟨.empty, 0⟩

/-- The value bound to a name. -/
def get? (vars : Variables) (name : String) : Option Value := vars.bindings.get? name

/-- What a change sounds like: each listener hears of it once. -/
def announce (vars : Variables) (c : Change) : Trace :=
  (List.range vars.listeners).map fun i => .change i c

/-- Adds a listener. -/
def subscribe (vars : Variables) : Variables := { vars with listeners := vars.listeners + 1 }

/-- The change that binding a name is. -/
def registration (vars : Variables) (name : String) : Change :=
  if (vars.get? name).isSome then .updated name else .registered name

/-- Binds a name to a value, in the stead of an earlier one. -/
def register (vars : Variables) (name : String) (v : Value) : Update Unit :=
  ⟨(), { vars with bindings := vars.bindings.insert name v },
    vars.announce (vars.registration name)⟩

/-- Binds a name to the value of a kind that a text writes. An unreadable text changes nothing. -/
def registerText (vars : Variables) (name raw : String) (kind : Kind) :
    Update (Except VariableError Unit) :=
  match kind.parse raw with
  | .ok v =>
    let u := vars.register name v
    ⟨.ok (), u.vars, u.trace⟩
  | .error cause =>
    let e := VariableError.unreadable name cause
    ⟨.error e, vars, [.note (.warning e.message)]⟩

/-- Unbinds a name and gives the value it had. -/
def remove (vars : Variables) (name : String) : Update (Except VariableError Value) :=
  match vars.get? name with
  | some v =>
    ⟨.ok v, { vars with bindings := vars.bindings.erase name }, vars.announce (.removed name)⟩
  | none =>
    let e := VariableError.notRegistered name
    ⟨.error e, vars, [.note (.failure ("cannot remove: " ++ e.message))]⟩

/-- The value of a name as a kind, or the zero of the kind. -/
def retrieveAs (vars : Variables) (name : String) (kind : Kind) : Noted Value :=
  match vars.get? name with
  | none => ⟨kind.zero, [.warning "variable is not registered, using zero value"]⟩
  | some v =>
    match v.widen? kind with
    | some w => ⟨w, []⟩
    | none => ⟨kind.zero, [.warning ("variable holds a " ++ v.kind.name ++ " but a " ++ kind.name ++
        " was requested, using zero value")]⟩

/-- The value of a name, whatever its kind. -/
def retrieve (vars : Variables) (name : String) : Noted (Option Value) :=
  match vars.get? name with
  | some v => ⟨some v, []⟩
  | none => ⟨none, [.warning "variable is not registered"]⟩

/-! ## What the operations do to the view -/

@[simp] theorem get?_register (vars : Variables) (name : String) (v : Value) (other : String) :
    (vars.register name v).vars.get? other =
      if name = other then some v else vars.get? other :=
  Registry.get?_insert ..

theorem get?_remove (vars : Variables) (name other : String) :
    (vars.remove name).vars.get? other = if name = other then none else vars.get? other := by
  unfold remove
  split
  · exact Registry.get?_erase ..
  · rename_i h
    split
    · rename_i e
      exact e ▸ h
    · rfl

@[simp] theorem listeners_register (vars : Variables) (name : String) (v : Value) :
    (vars.register name v).vars.listeners = vars.listeners := rfl

@[simp] theorem get?_subscribe (vars : Variables) (name : String) :
    vars.subscribe.get? name = vars.get? name := rfl

/-- An unreadable text leaves the variables as they were. -/
theorem registerText_of_unreadable {vars : Variables} {name raw : String} {kind : Kind}
    (h : kind.parse? raw = none) :
    (vars.registerText name raw kind).vars = vars := by
  have := Kind.parse_eq_error_iff.2 ⟨h, rfl⟩
  simp [registerText, this]

/-- A readable text binds the name to its value. -/
theorem registerText_of_readable {vars : Variables} {name raw : String} {kind : Kind} {v : Value}
    (h : kind.parse? raw = some v) :
    (vars.registerText name raw kind).vars = (vars.register name v).vars := by
  simp [registerText, Kind.parse_eq_ok_iff.2 h]

/-- What is retrieved as a kind is of that kind. -/
theorem kind_retrieveAs (vars : Variables) (name : String) (kind : Kind) :
    (vars.retrieveAs name kind).value.kind = kind := by
  unfold retrieveAs
  split
  · exact Kind.kind_zero kind
  · split
    · rename_i h
      exact Value.kind_of_widen? h
    · exact Kind.kind_zero kind

end Variables

end Colloquy
