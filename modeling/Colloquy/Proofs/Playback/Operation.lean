import Colloquy.Session

/-!
# Proofs/Playback/Operation — what a game asks of a session, in any order

An `Operation` is something that a game asks of a session; `Playback.run` asks for operations one
after the other. A `Playback` remembers the events that were taken from its session, so that none of
them is lost to sight.

A `Path` is any number of steps, one after the other, each with a label.
-/

namespace Colloquy

/-! ## Operations -/

/-- A change of the variables by the game. -/
inductive VariableCall
  | register (name : String) (v : Value)
  | registerText (name raw : String) (kind : Kind)
  | remove (name : String)
  | subscribe

/-- Something that a game asks of a session. -/
inductive Operation
  | start (name : String)
  | next
  | select (index : Nat)
  | stop
  | closeBackground
  | tick (dt : Single)
  | load (name text : String)
  | vary (v : VariableCall)
  | drain

namespace Stage

/-- The stage after a change of the variables. -/
def vary (s : Stage) : VariableCall → Stage
  | .register name v => s.update (s.vars.register name v)
  | .registerText name raw kind => s.update (s.vars.registerText name raw kind)
  | .remove name => s.update (s.vars.remove name)
  | .subscribe => { s with vars := s.vars.subscribe }

end Stage

/-- The session after an operation. -/
def Session.perform (x : Session) : Operation → Session
  | .start name => (x.start name).session
  | .next => x.next.session
  | .select index => (x.select index).session
  | .stop => x.stop
  | .closeBackground => x.closeBackground
  | .tick dt => x.tick dt
  | .load name text => (x.load name text).2
  | .vary v => { x with stage := x.stage.vary v }
  | .drain => x.drain.2

/-- A session, and the events that were taken from it before. -/
structure Playback where
  session : Session
  heard : List Event

namespace Playback

/-- A session in which nothing has been performed. -/
def new (library : Library) (setting : Setting) (vars : Variables) : Playback :=
  ⟨.new library setting vars, []⟩

/-- Asks for an operation. -/
def perform (x : Playback) (o : Operation) : Playback :=
  ⟨x.session.perform o,
    match o with
    | .drain => x.heard ++ x.session.drain.1
    | _ => x.heard⟩

/-- Asks for operations one after the other. -/
def run (x : Playback) (os : List Operation) : Playback := os.foldl perform x

/-- All events so far. -/
def events (x : Playback) : List Event := x.heard ++ x.session.stage.events

/-- All that was observed so far. -/
def trace (x : Playback) : Trace := x.session.stage.trace

end Playback

/-! ## Paths -/

/-- Steps one after the other, and their labels. -/
inductive Path {α β : Type} (step : α → β → α → Prop) : α → List β → α → Prop
  | refl {x : α} : Path step x [] x
  | cons {x y z : α} {b : β} {bs : List β} : step x b y → Path step y bs z → Path step x (b :: bs) z

namespace Path

variable {α β γ δ : Type} {step : α → β → α → Prop}

theorem single {x y : α} {b : β} (h : step x b y) : Path step x [b] y := .cons h .refl

theorem trans {x y z : α} {bs cs : List β} (h : Path step x bs y) (k : Path step y cs z) :
    Path step x (bs ++ cs) z := by
  induction h with
  | refl => exact k
  | cons hb _ ih => exact .cons hb (ih k)

/-- Steps in two parts pass through a state between them. -/
theorem split {bs cs : List β} {z : α} :
    ∀ {x : α}, Path step x (bs ++ cs) z → ∃ y, Path step x bs y ∧ Path step y cs z := by
  induction bs with
  | nil => exact fun {x} h => ⟨x, .refl, h⟩
  | cons b bs ih =>
    intro x h
    cases h with
    | cons hb h =>
      obtain ⟨y, hbs, hcs⟩ := ih h
      exact ⟨y, .cons hb hbs, hcs⟩

/-- Steps that are steps of another kind, seen in another way. -/
theorem map {step' : γ → δ → γ → Prop} {f : α → γ} {g : β → δ}
    (hstep : ∀ {x b y}, step x b y → step' (f x) (g b) (f y)) {x y : α} {bs : List β}
    (h : Path step x bs y) : Path step' (f x) (bs.map g) (f y) := by
  induction h with
  | refl => exact .refl
  | cons hb _ ih => exact .cons (hstep hb) ih

/-- What each step keeps is kept. -/
theorem keeps {P : α → Prop} {x y : α} {bs : List β} (h : Path step x bs y)
    (hstep : ∀ x b y, step x b y → P x → P y) (hx : P x) : P y := by
  induction h with
  | refl => exact hx
  | cons hb _ ih => exact ih (hstep _ _ _ hb hx)

end Path

/-- There is a path, whatever its labels. -/
def Reaches {α β : Type} (step : α → β → α → Prop) (x y : α) : Prop := ∃ bs, Path step x bs y

namespace Reaches

variable {α β γ δ : Type} {step : α → β → α → Prop}

theorem refl (x : α) : Reaches step x x := ⟨[], .refl⟩

theorem single {x y : α} {b : β} (h : step x b y) : Reaches step x y := ⟨[b], .single h⟩

theorem trans {x y z : α} (h : Reaches step x y) (k : Reaches step y z) : Reaches step x z := by
  obtain ⟨bs, h⟩ := h
  obtain ⟨cs, k⟩ := k
  exact ⟨bs ++ cs, h.trans k⟩

theorem cons {x y z : α} {b : β} (h : step x b y) (k : Reaches step y z) : Reaches step x z :=
  (single h).trans k

theorem map {step' : γ → δ → γ → Prop} {f : α → γ} (g : β → δ)
    (hstep : ∀ {x b y}, step x b y → step' (f x) (g b) (f y)) {x y : α}
    (h : Reaches step x y) : Reaches step' (f x) (f y) := by
  obtain ⟨bs, h⟩ := h
  exact ⟨bs.map g, Path.map (f := f) (g := g) hstep h⟩

end Reaches

end Colloquy
