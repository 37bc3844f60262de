import Colloquy.Trace

/-!
# Audit — checks that stop at the first fault and take notes on the way

An `Audit` is a check: it finds a fault or goes through with a result, and it has taken notes up to
that point. Checks follow one another by `bind`, which keeps the notes of both and stops at a fault.
The lemmas say when a check goes through: `Audit.bind` when both parts do, `Audit.each` when every
element does.
-/

namespace Colloquy

/-- A result, with the notes taken while reaching it. -/
structure Noted (α : Type) where
  value : α
  notes : List Note

/-- A result, or the first fault found, with the notes taken until then. -/
structure Audit (ε α : Type) where
  result : Except ε α
  notes : List Note

namespace Audit

variable {ε ε' α β : Type}

/-- Goes through. -/
def pass (a : α) : Audit ε α := ⟨.ok a, []⟩

/-- Finds a fault. -/
def fail (e : ε) : Audit ε α := ⟨.error e, []⟩

/-- Takes a note and goes through. -/
def note (n : Note) : Audit ε Unit := ⟨.ok (), [n]⟩

/-- Goes on from what the first check found, unless that is a fault. -/
def bind (x : Audit ε α) (f : α → Audit ε β) : Audit ε β :=
  match x.result with
  | .ok a => ⟨(f a).result, x.notes ++ (f a).notes⟩
  | .error e => ⟨.error e, x.notes⟩

instance : Monad (Audit ε) where
  pure := pass
  bind := bind

/-- A check without notes. -/
def ofExcept (r : Except ε α) : Audit ε α := ⟨r, []⟩

/-- The same check, its fault seen from further out. -/
def mapError (f : ε → ε') (x : Audit ε α) : Audit ε' α := ⟨x.result.mapError f, x.notes⟩

/-- A condition that must hold. -/
def require (p : Prop) [Decidable p] (e : ε) : Audit ε Unit :=
  if p then pass () else fail e

/-- A note that is taken under a condition. -/
def noteIf (p : Prop) [Decidable p] (n : Note) : Audit ε Unit :=
  if p then note n else pass ()

/-- Checks every element, in order. -/
def each (xs : List α) (f : α → Audit ε Unit) : Audit ε Unit :=
  match xs with
  | [] => pass ()
  | x :: xs => (f x).bind fun _ => each xs f

/-! ## When a check goes through -/

@[simp] theorem result_pass (a : α) : (pass a : Audit ε α).result = .ok a := rfl

@[simp] theorem result_pure (a : α) : (pure a : Audit ε α).result = .ok a := rfl

@[simp] theorem result_fail (e : ε) : (fail e : Audit ε α).result = .error e := rfl

@[simp] theorem result_note (n : Note) : (note n : Audit ε Unit).result = .ok () := rfl

@[simp] theorem result_ofExcept (r : Except ε α) : (ofExcept r).result = r := rfl

@[simp] theorem result_noteIf (p : Prop) [Decidable p] (n : Note) :
    (noteIf p n : Audit ε Unit).result = .ok () := by
  unfold noteIf
  split <;> rfl

@[simp] theorem result_bind_eq_ok_iff {x : Audit ε α} {f : α → Audit ε β} {b : β} :
    (x >>= f).result = .ok b ↔ ∃ a, x.result = .ok a ∧ (f a).result = .ok b := by
  change (bind x f).result = .ok b ↔ _
  unfold bind
  split <;> simp_all

/-- Two checks in a row go through if both do. -/
theorem result_seq_eq_ok_iff {x : Audit ε Unit} {f : Unit → Audit ε β} {b : β} :
    (x >>= f).result = .ok b ↔ x.result = .ok () ∧ (f ()).result = .ok b := by
  rw [result_bind_eq_ok_iff]
  exact ⟨fun ⟨_, hx, hf⟩ => ⟨hx, hf⟩, fun ⟨hx, hf⟩ => ⟨(), hx, hf⟩⟩

theorem mapError_eq_ok_iff {r : Except ε α} {f : ε → ε'} {a : α} :
    r.mapError f = .ok a ↔ r = .ok a := by
  cases r with
  | ok b => exact ⟨fun h => congrArg Except.ok (Except.ok.inj h), fun h => congrArg _ h⟩
  | error e => exact ⟨nofun, nofun⟩

@[simp] theorem result_mapError_eq_ok_iff {x : Audit ε α} {f : ε → ε'} {a : α} :
    (x.mapError f).result = .ok a ↔ x.result = .ok a := mapError_eq_ok_iff

@[simp] theorem result_require_eq_ok_iff {p : Prop} [Decidable p] {e : ε} :
    (require p e).result = .ok () ↔ p := by
  unfold require
  split <;> simp_all

@[simp] theorem result_each_eq_ok_iff {f : α → Audit ε Unit} :
    ∀ {xs : List α}, (each xs f).result = .ok () ↔ ∀ x ∈ xs, (f x).result = .ok ()
  | [] => by simp [each]
  | x :: xs => by
      rw [each, List.forall_mem_cons, ← result_each_eq_ok_iff]
      refine (result_bind_eq_ok_iff (f := fun _ => each xs f)).trans ⟨?_, fun h => ⟨(), h⟩⟩
      rintro ⟨⟨⟩, h⟩
      exact h

end Audit

end Colloquy
