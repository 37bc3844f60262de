import Colloquy.Proofs.Playback.Walk

/-!
# Proofs/Playback/Strides — a walk told by its moments

A walk is told by the moments of the main performance alone: `Place.Strides` are strides with these
moments, whatever the game asks for between them. What a game has to ask for, a choice or a stop,
does not come about but in the operation that asks for it (`Scene.select_of_chosen`).
-/

namespace Colloquy

open Markup

namespace Place

/-! ## Moments of a walk -/

/-- Moments that take the main performance from one place to another, whatever it is asked for. -/
inductive Strides : Place → List Moment → Place → Prop
  | nil {p : Place} : Strides p [] p
  | ask {o : Operation} {p q : Place} {ms : List Moment} (h : Strides (p.ask o) ms q) :
    Strides p ms q
  | silent {vars : Variables} {p p' q : Place} {ms : List Moment} (hp : Stride vars p none p')
    (h : Strides p' ms q) : Strides p ms q
  | cons {vars : Variables} {p p' q : Place} {m : Moment} {ms : List Moment}
    (hp : Stride vars p (some m) p') (h : Strides p' ms q) : Strides p (m :: ms) q

theorem Strides.trans {p q r : Place} {ms ns : List Moment} (h : Strides p ms q)
    (k : Strides q ns r) : Strides p (ms ++ ns) r := by
  induction h with
  | nil => exact k
  | ask _ ih => exact .ask (ih k)
  | silent hp _ ih => exact .silent hp (ih k)
  | cons hp _ ih => exact .cons hp (ih k)

/-- What comes before a moment of a walk, and what comes after it. -/
theorem Strides.around {p r : Place} {ls : List Moment} (h : Strides p ls r) :
    ∀ {ms ns : List Moment} {m : Moment}, ls = ms ++ m :: ns →
      ∃ vars q q', Strides p ms q ∧ Stride vars q (some m) q' ∧ Strides q' ns r := by
  induction h with
  | nil =>
    intro ms ns m hls
    simp at hls
  | ask _ ih =>
    intro ms ns m hls
    obtain ⟨vars, q, q', hms, hm, hns⟩ := ih hls
    exact ⟨vars, q, q', .ask hms, hm, hns⟩
  | silent hp _ ih =>
    intro ms ns m hls
    obtain ⟨vars, q, q', hms, hm, hns⟩ := ih hls
    exact ⟨vars, q, q', .silent hp hms, hm, hns⟩
  | @cons vars p p' r n ls hp h ih =>
    intro ms ns m hls
    cases ms with
    | nil =>
      obtain ⟨rfl, rfl⟩ := List.cons.inj hls
      exact ⟨vars, p, p', .nil, hp, h⟩
    | cons n' ms =>
      obtain ⟨rfl, hrest⟩ := List.cons.inj hls
      obtain ⟨vars', q, q', hms, hm, hns⟩ := ih hrest
      exact ⟨vars', q, q', .cons hp hms, hm, hns⟩

theorem Strides.uncons {p q : Place} {m : Moment} {ms : List Moment} (h : Strides p (m :: ms) q) :
    ∃ vars p₁ p₂, Strides p [] p₁ ∧ Stride vars p₁ (some m) p₂ ∧ Strides p₂ ms q :=
  h.around rfl

/-! ## Goals -/

/-- Where the main performance is about to go. -/
def goal? : Place → Option Goal
  | cued _ _ _ cue => some cue.goal
  | _ => none

/-- Whoever is about to go somewhere cannot be asked for anything else. -/
theorem ask_of_goal? {p : Place} {g : Goal} (hp : p.goal? = some g) (o : Operation) :
    p.ask o = p := by
  cases p with
  | cued => cases o <;> rfl
  | _ => cases hp

theorem Stride.eq_of_goal? {vars : Variables} {p p' : Place} {g : Goal}
    (h : Stride vars p none p') (hp : p.goal? = some g) : p' = p := by
  cases h with
  | stay => rfl
  | obey hrests => cases hrests <;> cases hp

/-- Nothing comes between, then. -/
theorem Strides.eq_of_goal? {p q : Place} {ms : List Moment} {g : Goal} (h : Strides p ms q)
    (hms : ms = []) (hp : p.goal? = some g) : q = p := by
  induction h with
  | nil => rfl
  | @ask o p q ms _ ih =>
    have hask := ask_of_goal? hp o
    rw [hask] at ih
    exact ih hms hp
  | silent hstride _ ih =>
    have heq := hstride.eq_of_goal? hp
    exact (ih hms (heq ▸ hp)).trans heq
  | cons => cases hms

end Place

/-- Whether a goal is one that only the game has in view: a choice, or a stop. -/
def Goal.isAsked : Goal → Bool
  | choice .. | ending .stopped => true
  | _ => false

/-- The goal that is reached in a moment. -/
def Moment.goal? : Moment → Option Goal
  | chosen index c => some (.choice index c)
  | ended _ why => some (.ending why)
  | _ => none

theorem Choice.isAsked_goal (c : Choice) : c.goal.isAsked = false := by
  unfold goal
  cases c.next? <;> rfl

namespace Place

/-- No stride turns to a goal that only the game has in view. -/
theorem Stride.goal?_of_isAsked {vars : Variables} {p p' : Place} {m? : Option Moment} {g : Goal}
    (h : Stride vars p m? p') (hp : p'.goal? = some g) (hg : g.isAsked = true) :
    p.goal? = some g := by
  cases h with
  | stay | fired => exact hp
  | shown | letter | tag | offered | ended => cases hp
  | begun | obey | lastTag | link | concluded | lastAction | follow =>
    cases hp
    cases hg
  | whole =>
    split at hp
    · cases hp
      cases hg
    · cases hp
  | chosen =>
    cases hp
    rw [Choice.isAsked_goal] at hg
    cases hg

theorem Stride.goal?_of_moment {vars : Variables} {p p' : Place} {m : Moment} {g : Goal}
    (h : Stride vars p (some m) p') (hm : m.goal? = some g) : p.goal? = some g := by
  cases h with
  | chosen | ended => exact hm
  | _ => cases hm

end Place

/-- A performance for which nothing is left to do is not about to go anywhere. -/
theorem Performance.goal?_place_none (q : Performance) : (q.place none).goal? = none := by
  unfold place
  dsimp only
  split <;> rfl

/-- What an operation gives a player to do leads to the goal that it asks for. -/
theorem Player.goal_of_cueFor {p : Player} {o : Operation} {cue : Cue} (h : p.cueFor o = some cue) :
    (o = .next ∧ cue.goal = .onward) ∨
      (∃ index c, o = .select index ∧ cue.goal = .choice index c) ∨
        (o = .stop ∧ cue.goal = .ending .stopped) := by
  unfold cueFor at h
  split at h
  · split at h
    · split at h <;> cases h
      exact .inl ⟨rfl, rfl⟩
    · cases h
  · split at h
    · split at h
      · obtain ⟨c, -, rfl⟩ := Option.map_eq_some_iff.1 h
        exact .inr (.inl ⟨_, c, rfl, rfl⟩)
      · cases h
    · cases h
  · obtain ⟨q, -, rfl⟩ := Option.map_eq_some_iff.1 h
    exact .inr (.inr ⟨rfl, rfl⟩)
  · cases h

namespace Scene

variable {o : Operation} {x : Playback} {ks : List (Option Mark)}

/-- What only the game has in view was in view from the start of an operation. -/
theorem goal?_of_path {y z : Scene} (h : Path (Tread o) y ks z) {m : Moment} {g : Goal}
    (hk : some ⟨.main, m⟩ ∈ ks) (hm : m.goal? = some g) (hg : g.isAsked = true) :
    y.lead.place.goal? = some g := by
  induction h with
  | refl => cases hk
  | cons hstep _ ih =>
    obtain ⟨-, hstride⟩ := hstep
    rcases List.mem_cons.1 hk with rfl | hk
    · have hon : momentOn .main (some ⟨.main, m⟩) = some m := momentOn_map_self .main (some m)
      rw [hon] at hstride
      exact hstride.goal?_of_moment hm
    · exact hstride.goal?_of_isAsked (ih hk) hg

/-- What is in view from the start of an operation is what it asks for. -/
theorem goal?_asked {g : Goal} (h : (asked x o).lead.place.goal? = some g) :
    ∃ q cue, x.session.player.playing = some q ∧ x.session.player.cueFor o = some cue ∧
      cue.goal = g := by
  cases hq : x.session.player.playing with
  | none =>
    rw [Lead.place, show (asked x o).lead.player.playing = none from hq] at h
    cases h
  | some q =>
    have hplace : (asked x o).lead.place = q.place (x.session.player.cueFor o) :=
      Lead.place_of_playing hq ..
    rw [hplace] at h
    cases hcue : x.session.player.cueFor o with
    | some cue =>
      rw [hcue] at h
      exact ⟨q, cue, rfl, rfl, Option.some.inj h⟩
    | none =>
      rw [hcue, q.goal?_place_none] at h
      cases h

/-- **A choice is made by a selection that succeeds.** -/
theorem select_of_chosen {y : Scene} (hx : (of x).Sound) (h : Path (Tread o) (asked x o) ks y)
    {index : Nat} {c : Choice} (hk : some ⟨.main, .chosen index c⟩ ∈ ks) :
    o = .select index ∧ (x.session.select index).result = .ok () := by
  obtain ⟨q, cue, hq, hcue, hgoal⟩ := goal?_asked (goal?_of_path h hk rfl rfl)
  obtain ⟨-, hg⟩ | ⟨i, e, rfl, hg⟩ | ⟨-, hg⟩ := Player.goal_of_cueFor hcue
  · cases hg.symm.trans hgoal
  · cases hg.symm.trans hgoal
    have hsome : (x.session.player.cueFor (.select index)).isSome = true := by rw [hcue]; rfl
    exact ⟨rfl, (Lead.result_select_eq_ok_iff hq (hx.playing q hq)).2 hsome⟩
  · cases hg.symm.trans hgoal

/-- A conversation is stopped by the operation that asks for it. -/
theorem stop_of_ended {y : Scene} (h : Path (Tread o) (asked x o) ks y) {name : String}
    (hk : some ⟨.main, .ended name .stopped⟩ ∈ ks) : o = .stop := by
  obtain ⟨q, cue, hq, hcue, hgoal⟩ := goal?_asked (goal?_of_path h hk rfl rfl)
  obtain ⟨-, hg⟩ | ⟨i, e, -, hg⟩ | ⟨ho, -⟩ := Player.goal_of_cueFor hcue
  · cases hg.symm.trans hgoal
  · cases hg.symm.trans hgoal
  · exact ho

/-- The moments of an operation are those of a walk. -/
theorem strides_of_path {y z : Scene} (h : Path (Tread o) y ks z) :
    Place.Strides y.lead.place (ks.reduceOption.filterMap (Mark.on? .main)) z.lead.place := by
  induction h with
  | refl => exact .nil
  | @cons y z w k? ks hstep _ ih =>
    obtain ⟨-, hstride⟩ := hstep
    cases k? with
    | none => exact .silent hstride ih
    | some k =>
      rw [List.reduceOption_cons_of_some]
      have hon : momentOn .main (some k) = k.on? .main := rfl
      rw [hon] at hstride
      cases hm : k.on? .main with
      | none =>
        rw [hm] at hstride
        rw [List.filterMap_cons_none hm]
        exact .silent hstride ih
      | some m =>
        rw [hm] at hstride
        rw [List.filterMap_cons_some hm]
        exact .cons hstride ih

end Scene

/-! ## Walks -/

namespace Playback

/-- A playback goes through operations, and the main performance walks through its script. What it
does next depends on where it stands and what it is asked for; a choice is made by a selection that
succeeds, and a conversation is stopped when that is asked for. -/
inductive Walks : Playback → Acts → Playback → Prop
  | nil {x : Playback} : Walks x [] x
  | cons {x y : Playback} {o : Operation} {ks : List (Option Mark)} {acts : Acts}
    (hasked : (Scene.asked x o).lead.place = (Scene.of x).lead.place.ask o)
    (h : Path (Scene.Tread o) (.asked x o) ks (.of (x.perform o)))
    (hselect : ∀ index c, some ⟨.main, .chosen index c⟩ ∈ ks →
      o = .select index ∧ (x.session.select index).result = .ok ())
    (hstop : ∀ name, some ⟨.main, .ended name .stopped⟩ ∈ ks → o = .stop)
    (hacts : Walks (x.perform o) acts y) : Walks x ((o, ks) :: acts) y

/-- **Whatever happens, the main performance walks through its script.** -/
theorem Plays.walks {x y : Playback} {acts : Acts} (h : x.Plays acts y)
    (hx : (Scene.of x).Sound) : x.Walks acts y := by
  induction h with
  | nil => exact .nil
  | @cons x y o ks acts h _ ih =>
    have hasked := hx.asked o
    have hpath := Scene.treads_of_path h hasked
    exact .cons (Scene.place_asked x o) hpath (fun _ _ => Scene.select_of_chosen hx hpath)
      (fun _ => Scene.stop_of_ended hpath) (ih (Scene.sound_of_reaches ⟨ks, h⟩ hasked))

theorem Walks.strides {x y : Playback} {acts : Acts} (h : x.Walks acts y) :
    Place.Strides (Scene.of x).lead.place (acts.on .main) (Scene.of y).lead.place := by
  induction h with
  | nil => exact .nil
  | @cons x y o ks acts hasked h _ _ _ ih =>
    rw [Acts.on_cons]
    have hpath := Scene.strides_of_path h
    rw [hasked] at hpath
    exact hpath.ask.trans ih

/-- Between two operations the main performance is not about to go anywhere. -/
theorem goal?_place (x : Playback) : (Scene.of x).lead.place.goal? = none := by
  cases hq : x.session.player.playing with
  | none =>
    rw [Lead.place, show (Scene.of x).lead.player.playing = none from hq]
    rfl
  | some q =>
    have hplace : (Scene.of x).lead.place = q.place none := Lead.place_of_playing hq ..
    rw [hplace]
    exact q.goal?_place_none

end Playback

end Colloquy
