import Colloquy.Proofs.Number.Sum
import Colloquy.Proofs.Playback.Farewell

/-!
# Proofs/Playback/Standstill — a tick of no positive time

A tick may be given any number, also one below zero, or what is no number. A reveal takes such a
tick for one of no time at all (`Reveal.elapse_of_not_positive`), and so does the main conversation.
A background conversation that holds a sentence takes the number as it is: the hold is never
shortened (`Single.exists_rank?_le_of_sub`), but it may be made longer, or go on for ever. Main
statement: `tick_of_not_positive`.
-/

namespace Colloquy

theorem Clock.elapse_zero (k : Clock) : k.elapse 0 = k := by
  have h0 : (0 : Single).clamp = 0 := by decide
  rw [elapse, h0, Single.sub_zero]

/-- A reveal is left as it is where no time passes. -/
theorem Reveal.elapse_of_not_positive {dt : Single} (h : dt.isPositive = false) (r : Reveal) :
    r.elapse dt = r := by
  rw [elapse, Clock.elapse_of_not_positive h, Clock.elapse_zero]

namespace Background

/-! ## Going on from a hold -/

section Hold

variable (setting : Setting) (b : Background) (x y : Single) (s : Stage)

/-- Whoever stays says something, or ends: how long is left of a hold does not matter. -/
theorem stay_holding : ({ b with phase := .holding x } : Background).stay setting s =
    ({ b with phase := .holding y } : Background).stay setting s := by
  unfold stay
  dsimp only [said]
  split <;> rfl

theorem visitAll_phase (ds : List Dialogue) :
    ∀ (first : Bool) (b : Background) (phase : AmbientPhase) (s : Stage),
      ({ b with phase } : Background).visitAll first s ds =
        ({ (b.visitAll first s ds).1 with phase }, (b.visitAll first s ds).2) := by
  induction ds with
  | nil => exact fun _ _ _ _ => rfl
  | cons d ds ih =>
    intro first b phase s
    unfold visitAll
    rw [visit_phase]
    exact ih false _ phase _

theorem enter_holding (first : Bool) (d : Dialogue) :
    ({ b with phase := .holding x } : Background).enter setting first d s =
      ({ b with phase := .holding y } : Background).enter setting first d s := by
  unfold enter
  dsimp only
  split
  · rw [visitAll_phase _ first b (.holding x), visitAll_phase _ first b (.holding y)]
    exact stay_holding setting _ x y _
  · rw [visitAll_phase _ first b (.holding x), visitAll_phase _ first b (.holding y)]
    rfl
  · rfl

theorem advance_holding : ({ b with phase := .holding x } : Background).advance setting s =
    ({ b with phase := .holding y } : Background).advance setting s := by
  unfold advance
  dsimp only [said]
  split
  · split
    · exact enter_holding setting b x y s false _
    · rfl
  · exact stay_holding setting b x y s

end Hold

/-- A tick of no positive time is one of no time, unless a sentence is held for longer. -/
theorem tick_holding (setting : Setting) {dt : Single} (h : dt.isPositive = false)
    {b : Background} {x : Single} (hp : b.phase = .holding x) (s : Stage) :
    b.tick setting dt s =
      if (x - dt).isSpent then b.tick setting 0 s
      else ({ b with phase := .holding (x - dt) }, s) := by
  unfold tick
  rw [hp]
  dsimp only
  rw [Single.sub_zero]
  split
  case isTrue hspent =>
    rw [if_pos (Single.isSpent_of_sub h hspent)]
    exact advance_holding setting b (x - dt) x s
  case isFalse => rfl

theorem tick_of_not_holding (setting : Setting) {dt : Single} (h : dt.isPositive = false)
    {b : Background} (hp : ∀ x, b.phase ≠ .holding x) (s : Stage) :
    b.tick setting dt s = b.tick setting 0 s := by
  have h0 : (0 : Single).isPositive = false := by decide
  unfold tick
  split
  case h_1 => rfl
  case h_2 x hx => exact absurd hx (hp x)
  case h_3 r _ => rw [r.elapse_of_not_positive h, r.elapse_of_not_positive h0]

end Background

theorem Player.tick_eq_of_not_positive {setting : Setting} {dt : Single}
    (h : dt.isPositive = false) (p : Player) (s : Stage) :
    p.tick setting dt s = p.tick setting 0 s := by
  have h0 : (0 : Single).isPositive = false := by decide
  unfold tick
  split
  case h_1 => rfl
  case h_2 q r _ => rw [r.elapse_of_not_positive h, r.elapse_of_not_positive h0]

/-- **A tick of no positive time is a tick of no time**: it leaves a reveal as it is, and does to
the main conversation, and to a background conversation, what a tick of no time does. But a
background conversation that holds a sentence may hold it for longer than before, or for ever. -/
theorem tick_of_not_positive {dt : Single} (h : dt.isPositive = false) :
    (∀ r : Reveal, r.elapse dt = r) ∧
      (∀ (setting : Setting) (p : Player) (s : Stage),
        p.tick setting dt s = p.tick setting 0 s) ∧
      ∀ (setting : Setting) (b : Background) (s : Stage),
        b.tick setting dt s = b.tick setting 0 s ∨
          ∃ x, b.phase = .holding x ∧
            b.tick setting dt s = ({ b with phase := .holding (x - dt) }, s) ∧
            (x - dt).isSpent = false ∧
            ∀ r, (x - dt).rank? = some r → ∃ q, x.rank? = some q ∧ q ≤ r := by
  refine ⟨Reveal.elapse_of_not_positive h, fun _ => Player.tick_eq_of_not_positive h, ?_⟩
  intro setting b s
  by_cases hp : ∃ x, b.phase = .holding x
  · obtain ⟨x, hp⟩ := hp
    have htick := Background.tick_holding setting h hp s
    cases hspent : (x - dt).isSpent with
    | true => exact .inl (htick.trans (if_pos hspent))
    | false =>
      refine .inr ⟨x, hp, htick.trans (if_neg ?_), hspent,
        fun r => Single.exists_rank?_le_of_sub h⟩
      rw [hspent]
      exact Bool.false_ne_true
  · exact .inl (Background.tick_of_not_holding setting h (not_exists.1 hp) s)

theorem tick_of_not_positive_nan :
    Single.nan.isPositive = false ∧ (∀ r : Reveal, r.elapse .nan = r) ∧
      (∀ (setting : Setting) (p : Player) (s : Stage),
        p.tick setting .nan s = p.tick setting 0 s) ∧
      ∀ (setting : Setting) (b : Background) (s : Stage),
        b.tick setting .nan s = b.tick setting 0 s ∨
          ∃ x, b.phase = .holding x ∧
            b.tick setting .nan s = ({ b with phase := .holding (x - .nan) }, s) ∧
            (x - .nan).isSpent = false ∧
            ∀ r, (x - .nan).rank? = some r → ∃ q, x.rank? = some q ∧ q ≤ r :=
  ⟨rfl, tick_of_not_positive rfl⟩

/-- A second below zero makes a hold of one second one of two; after a second more it would have
been over. -/
theorem tick_below_zero_prolongs_hold :
    let setting : Setting := ⟨{}, default, fun _ => false⟩
    (-1 : Single).isPositive = false ∧
      ∃ b s', Background.start setting 3 "b" (.monologue ["Hm."]) (.ofVariables .empty) =
          (.ok b, s') ∧
        let x := b.tick setting (.ofRatio false 100 1) s'
        x.1.phase = .holding 1 ∧
          (x.1.tick setting 0 x.2).1.phase = .holding 1 ∧
          (x.1.tick setting (-1) x.2).1.phase = .holding (.ofRatio false 2 1) ∧
          let y := x.1.tick setting 0 x.2
          let z := x.1.tick setting (-1) x.2
          (y.1.tick setting 1 y.2).1.isFinished = true ∧
          (z.1.tick setting 1 z.2).1.isFinished = false := by
  refine ⟨by decide, _, _, Background.start_of_startingPoint _ 3 "b"
    (Background.startingPoint_monologue ["Hm."] .empty), ?_⟩
  decide +kernel

end Colloquy
