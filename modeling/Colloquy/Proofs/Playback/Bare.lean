import Colloquy.Proofs.Playback.Solo

/-!
# Proofs/Playback/Bare — what has no part in a background conversation

In the background no choices are offered, and no actions are fired at the end. A script can be
stripped of both (`Conversation.bare`), and a background conversation with it. Whatever a
conversation does, the stripped one does too, and the stage is the same after it
(`Background.meetAll_bare`); so two scripts that differ in nothing else cannot be told apart
(`Background.meetAll_of_bare_eq`).
-/

namespace Colloquy

open Markup

/-! ## Stripping -/

/-- A dialogue without its choices and its final actions. -/
def Dialogue.bare (d : Dialogue) : Dialogue := { d with choices := [], onFinished := [] }

/-- A script without the choices and the final actions of its dialogues. -/
def Conversation.bare (c : Conversation) : Conversation :=
  { c with dialogues := c.dialogues.map Dialogue.bare }

def Trail.bare (t : Trail) : Trail where
  passed := t.passed.map Dialogue.bare
  landing := match t.landing with
    | .at d => .at d.bare
    | .missing id => .missing id

def Background.bare (b : Background) : Background :=
  { b with script := b.script.bare, dialogue := b.dialogue.bare }

/-- A background conversation is stripped, the stage is left alone. -/
def Background.stripped (x : Background × Stage) : Background × Stage := (x.1.bare, x.2)

/-! ## Scripts -/

@[simp] theorem Dialogue.ambientOutlook_bare (d : Dialogue) (said : Nat) :
    d.bare.ambientOutlook said = d.ambientOutlook said := rfl

namespace Conversation

theorem dialogue?_bare (c : Conversation) (id : Int32) :
    c.bare.dialogue? id = (c.dialogue? id).map Dialogue.bare := by
  simp only [dialogue?, bare, List.find?_map]
  rfl

/-- The best starting point is looked for among ids, flags and conditions alone. -/
theorem bestStart_bare (vars : Variables) (ds : List Dialogue) :
    ∀ best : Option Dialogue, bestStart vars (best.map Dialogue.bare) (ds.map Dialogue.bare) =
      ⟨(bestStart vars best ds).value.map Dialogue.bare, (bestStart vars best ds).notes⟩ := by
  induction ds with
  | nil => exact fun _ => rfl
  | cons d ds ih =>
    intro best
    have hbest : ((best.map Dialogue.bare).all fun b => decide (b.id < d.id)) =
        best.all fun b => decide (b.id < d.id) := by cases best <;> rfl
    have hnext : (if (Condition.allHold vars d.conditions).value then some d.bare
        else best.map Dialogue.bare) =
        (if (Condition.allHold vars d.conditions).value then some d else best).map Dialogue.bare :=
      by split <;> rfl
    simp only [List.map_cons, bestStart]
    rw [show d.bare.startingPoint = d.startingPoint from rfl,
      show d.bare.conditions = d.conditions from rfl, show d.bare.id = d.id from rfl, hbest, hnext,
      ih, ih]
    split <;> rfl

theorem startingPoint_bare (c : Conversation) (vars : Variables) :
    c.bare.startingPoint vars =
      ⟨(c.startingPoint vars).value.map Dialogue.bare, (c.startingPoint vars).notes⟩ :=
  bestStart_bare vars c.dialogues none

theorem trailWithin?_bare (c : Conversation) (links : Nat) :
    ∀ d : Dialogue, c.bare.trailWithin? (·.ambientOutlook 0) links d.bare =
      (c.trailWithin? (·.ambientOutlook 0) links d).map Trail.bare := by
  induction links with
  | zero =>
    intro d
    unfold trailWithin?
    simp only [Dialogue.ambientOutlook_bare, dialogue?_bare]
    split
    · cases c.dialogue? _ <;> rfl
    · rfl
  | succ links ih =>
    intro d
    unfold trailWithin?
    simp only [Dialogue.ambientOutlook_bare, dialogue?_bare]
    split
    · cases c.dialogue? _ with
      | none => rfl
      | some e =>
        simp only [Option.map_some, ih, Option.map_map]
        rfl
    · rfl

theorem trail?_bare (c : Conversation) (d : Dialogue) :
    c.bare.trail? (·.ambientOutlook 0) d.bare =
      (c.trail? (·.ambientOutlook 0) d).map Trail.bare := by
  have hlength : c.bare.dialogues.length = c.dialogues.length := List.length_map ..
  rw [trail?, hlength]
  exact c.trailWithin?_bare _ d

end Conversation

/-! ## Going on -/

/-- Two runs come as far, and what is then known of both is one thing if a command ended them, and
another otherwise. -/
def Progress.Lift {σ τ : Type} (ended underway : σ → τ → Prop) (x : Progress × σ)
    (y : Progress × τ) : Prop :=
  x.1 = y.1 ∧ if x.1 = .broken then ended x.2 y.2 else underway x.2 y.2

/-- Two runs at the same beats stay related if they are kept so at each step. -/
theorem Reveal.runBeats_lift {σ τ : Type} {h : Handler σ} {k : Handler τ}
    (ended underway : σ → τ → Prop)
    (hcharacter : ∀ {x y}, underway x y → underway (h.onCharacter x) (k.onCharacter y))
    (htag : ∀ c clock {x y}, underway x y →
      ((h.onTag c clock x).1 = none ∧ (k.onTag c clock y).1 = none ∧
          ended (h.onTag c clock x).2 (k.onTag c clock y).2) ∨
        ∃ clock', (h.onTag c clock x).1 = some clock' ∧ (k.onTag c clock y).1 = some clock' ∧
          underway (h.onTag c clock x).2 (k.onTag c clock y).2)
    (bs : List Beat) : ∀ (n : Nat) (clock : Clock) {x : σ} {y : τ}, underway x y →
      Progress.Lift ended underway (runBeats h bs n clock x) (runBeats k bs n clock y) := by
  induction bs with
  | nil =>
    intro n clock x y hxy
    unfold runBeats
    split <;> exact ⟨rfl, hxy⟩
  | cons beat bs ih =>
    intro n clock x y hxy
    cases beat with
    | character c =>
      unfold runBeats
      split
      · exact ⟨rfl, hxy⟩
      · exact ih _ _ (hcharacter hxy)
    | tag c =>
      unfold runBeats
      split
      · exact ⟨rfl, hxy⟩
      · have hdue := htag c clock hxy
        generalize h.onTag c clock x = x' at hdue ⊢
        generalize k.onTag c clock y = y' at hdue ⊢
        obtain ⟨_, x'⟩ := x'
        obtain ⟨_, y'⟩ := y'
        obtain ⟨rfl, rfl, hended⟩ | ⟨clock', rfl, rfl, hafter⟩ := hdue
        · exact ⟨rfl, hended⟩
        · exact ih n clock' hafter

/-- Two runs at the same beats are alike if what they do at each step is. -/
theorem Reveal.runBeats_map {σ τ : Type} {h : Handler σ} {k : Handler τ} (f : σ → τ)
    (hcharacter : ∀ s, k.onCharacter (f s) = f (h.onCharacter s))
    (htag : ∀ c clock s, k.onTag c clock (f s) = ((h.onTag c clock s).1, f (h.onTag c clock s).2))
    (bs : List Beat) (n : Nat) (clock : Clock) (s : σ) :
    Reveal.runBeats k bs n clock (f s) =
      ((Reveal.runBeats h bs n clock s).1, f (Reveal.runBeats h bs n clock s).2) := by
  have hlift := runBeats_lift (h := h) (k := k) (fun x y => y = f x) (fun x y => y = f x)
    (by rintro x _ rfl; exact hcharacter x)
    (by
      rintro c clock x _ rfl
      rw [htag]
      cases (h.onTag c clock x).1 with
      | none => exact .inl ⟨rfl, rfl, rfl⟩
      | some clock' => exact .inr ⟨clock', rfl, rfl, rfl⟩)
    bs n clock (rfl : f s = f s)
  obtain ⟨hprogress, hafter⟩ := hlift
  rw [ite_self] at hafter
  exact Prod.ext hprogress.symm hafter

namespace Background

variable (setting : Setting) (b : Background) (s : Stage)

theorem finish_bare : b.bare.finish s = stripped (b.finish s) := by
  unfold finish
  rw [show b.bare.isFinished = b.isFinished from rfl]
  split <;> rfl

theorem visit_bare (first : Bool) (d : Dialogue) :
    b.bare.visit first s d.bare = stripped (b.visit first s d) := by
  rw [visit_eq, visit_eq, show d.bare.moveFrom? b.bare.anchor = d.moveFrom? b.anchor from rfl]
  cases d.moveFrom? b.anchor <;> rfl

theorem visitAll_bare (ds : List Dialogue) :
    ∀ (first : Bool) (b : Background) (s : Stage),
      b.bare.visitAll first s (ds.map Dialogue.bare) = stripped (b.visitAll first s ds) := by
  induction ds with
  | nil => exact fun _ _ _ => rfl
  | cons d ds ih =>
    intro first b s
    rw [List.map_cons, visitAll, visit_bare]
    exact ih false (b.visit first s d).1 (b.visit first s d).2

theorem stay_bare : b.bare.stay setting s = stripped (b.stay setting s) := by
  unfold stay
  rw [show b.bare.dialogue.ambientOutlook b.bare.said = b.dialogue.ambientOutlook b.said from rfl]
  split
  · rfl
  · exact b.finish_bare s

theorem enter_bare (first : Bool) (d : Dialogue) :
    b.bare.enter setting first d.bare s = stripped (b.enter setting first d s) := by
  unfold enter
  rw [show b.bare.script = b.script.bare from rfl, Conversation.trail?_bare]
  obtain _ | ⟨passed, e | id⟩ := b.script.trail? (·.ambientOutlook 0) d
  · exact b.finish_bare _
  · have hpassed : passed.map Dialogue.bare ++ [e.bare] = (passed ++ [e]).map Dialogue.bare := by
      rw [List.map_append, List.map_singleton]
    simp only [Option.map_some, Trail.bare, hpassed, visitAll_bare]
    exact stay_bare setting _ _
  · simp only [Option.map_some, Trail.bare, visitAll_bare]
    exact finish_bare _ _

theorem advance_bare : b.bare.advance setting s = stripped (b.advance setting s) := by
  unfold advance
  rw [show b.bare.dialogue.ambientOutlook b.bare.said = b.dialogue.ambientOutlook b.said from rfl,
    show b.bare.script = b.script.bare from rfl]
  split
  · rw [Conversation.dialogue?_bare]
    cases b.script.dialogue? _ with
    | none => exact b.finish_bare _
    | some d => exact b.enter_bare setting s false d
  · exact b.stay_bare setting s

theorem run_bare (declared : List Action) (r : Reveal) (x : Background × Stage) :
    let run := r.run (handler setting declared)
    run (stripped x) = ((run x).1, stripped (run x).2) := by
  refine Reveal.runBeats_map stripped (fun _ => rfl) (fun c clock y => ?_) r.pending r.revealed
    r.clock x
  have hfollowUp : ∀ (b : Background) (s : Stage) (f : FollowUp),
      b.bare.followUp s f = stripped (b.followUp s f) := by
    intro b s f
    unfold followUp
    split
    · rw [finish_bare]
      rfl
    all_goals rfl
  simp only [handler, stripped, hfollowUp]
  rfl

theorem tick_bare (dt : Single) : b.bare.tick setting dt s = stripped (b.tick setting dt s) := by
  unfold tick
  rw [show b.bare.phase = b.phase from rfl]
  split
  case h_1 => rfl
  case h_2 remaining _ =>
    dsimp only
    split
    · exact advance_bare setting { b with phase := .holding (remaining - dt) } s
    · rfl
  case h_3 r _ =>
    have hrun := run_bare setting b.script.actions (r.elapse dt) (b, s)
    rw [show (b.bare, s) = stripped (b, s) from rfl,
      show b.bare.script.actions = b.script.actions from rfl, hrun]
    obtain ⟨_ | _ | _, b', s'⟩ := Reveal.run _ _ (b, s) <;> rfl

/-! ## All calls -/

theorem call_bare (c : BackgroundCall) :
    b.bare.call setting s c = stripped (b.call setting s c) := by
  cases c with
  | tick dt => exact b.tick_bare setting s dt
  | finish => exact b.finish_bare s

/-- **A stripped conversation does what the other one does.** -/
theorem meetAll_bare (os : List BackgroundOccasion) :
    ∀ x : Background × Stage, meetAll (stripped x) os = stripped (meetAll x os) := by
  induction os with
  | nil => exact fun _ => rfl
  | cons o os ih =>
    intro x
    have hmeet : meet (stripped x) o = stripped (meet x o) := call_bare o.setting x.1 _ o.call
    rw [meetAll, List.foldl_cons, hmeet]
    exact ih (meet x o)

theorem start_bare (id : Nat) (name : String) (c : Conversation) :
    start setting id name c.bare s =
      ((start setting id name c s).1.map bare, (start setting id name c s).2) := by
  have hstart : s.startingPoint c.bare =
      ((s.startingPoint c).1.map Dialogue.bare, (s.startingPoint c).2) := by
    rw [Stage.startingPoint, Conversation.startingPoint_bare]
    rfl
  unfold start
  rw [hstart]
  obtain ⟨_ | d, s'⟩ := s.startingPoint c
  · rfl
  · have henter := enter_bare setting { id, name, script := c, dialogue := d }
      (s'.report (.backgroundStarted id name)) true d
    dsimp only [Option.map_some]
    rw [show ({ id, name, script := c.bare, dialogue := d.bare } : Background) =
      bare { id, name, script := c, dialogue := d } from rfl, henter]
    rfl

/-- **Scripts that differ in choices and final actions alone cannot be told apart** as they are
performed in the background. -/
theorem meetAll_of_bare_eq {id : Nat} {name : String} {c c' : Conversation} {s s' : Stage}
    {b : Background} (hbare : c'.bare = c.bare)
    (h : start setting id name c s = (.ok b, s')) (os : List BackgroundOccasion) :
    ∃ b', start setting id name c' s = (.ok b', s') ∧
      (meetAll (b', s') os).2 = (meetAll (b, s') os).2 ∧
        (meetAll (b', s') os).1.isFinished = (meetAll (b, s') os).1.isFinished := by
  have hstart := start_bare setting s id name c'
  rw [hbare, start_bare setting s id name c, h] at hstart
  obtain ⟨hb, hs⟩ := Prod.mk.inj hstart
  cases hstart' : start setting id name c' s with
  | mk result s'' =>
    rw [hstart'] at hb hs
    obtain _ | b' := result
    · cases hb
    · have hb' : b'.bare = b.bare := (Except.ok.inj hb).symm
      subst hs
      have hall : stripped (meetAll (b', s') os) = stripped (meetAll (b, s') os) := by
        rw [← meetAll_bare, ← meetAll_bare, stripped, stripped, hb']
      obtain ⟨hbare, hstage⟩ := Prod.mk.inj hall
      have hfinished : (meetAll (b', s') os).1.bare.isFinished =
          (meetAll (b, s') os).1.bare.isFinished := congrArg isFinished hbare
      exact ⟨b', rfl, hstage, hfinished⟩

end Background

end Colloquy
