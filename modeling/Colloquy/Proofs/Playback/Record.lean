import Colloquy.Proofs.Playback.Order
import Mathlib.Data.List.ReduceOption

/-!
# Proofs/Playback/Record — whatever a game asks for, the record is in order

A `Happening` is a moment with the calls that were made in it. All calls and announcements of a
playback, whatever operations the game asked for, are those of some happenings, one after the other,
and on each text box the moments of these are well formed (`Orderly`).
-/

namespace Colloquy

open Markup

/-! ## Operations and what happens in them -/

/-- What happened in some operations: for each of them its steps, with their marks. -/
abbrev Acts := List (Operation × List (Option Mark))

namespace Acts

/-- The moments that happened. -/
def marks (acts : Acts) : List Mark := (acts.flatMap (·.2)).reduceOption

/-- The moments that happened on a text box. -/
def on (acts : Acts) (c : Channel) : List Moment := acts.marks.filterMap (Mark.on? c)

theorem on_cons (o : Operation) (ks : List (Option Mark)) (acts : Acts) (c : Channel) :
    Acts.on ((o, ks) :: acts) c = ks.reduceOption.filterMap (Mark.on? c) ++ acts.on c := by
  rw [on, marks, List.flatMap_cons, List.reduceOption_append, List.filterMap_append]
  rfl

end Acts

/-- A playback goes through operations, and each of them is steps. -/
inductive Playback.Plays : Playback → Acts → Playback → Prop
  | nil {x : Playback} : Plays x [] x
  | cons {x y : Playback} {o : Operation} {ks : List (Option Mark)} {acts : Acts}
    (h : Path (Scene.Step o) (.asked x o) ks (.of (x.perform o)))
    (hacts : Plays (x.perform o) acts y) : Plays x ((o, ks) :: acts) y

namespace Playback

/-- **Every run of operations is steps.** -/
theorem exists_plays (os : List Operation) :
    ∀ {x : Playback}, (Scene.of x).Sound → ∃ acts : Acts, acts.map (·.1) = os ∧
      Plays x acts (x.run os) := by
  induction os with
  | nil => exact fun _ => ⟨[], rfl, .nil⟩
  | cons o os ih =>
    intro x hx
    obtain ⟨ks, h⟩ := Scene.reaches_perform hx o
    obtain ⟨acts, hos, hacts⟩ := ih (Scene.sound_of_reaches ⟨ks, h⟩ (hx.asked o))
    exact ⟨(o, ks) :: acts, congrArg (o :: ·) hos, .cons h hacts⟩

end Playback

/-! ## Happenings -/

/-- A moment, and the calls that were made in it. -/
structure Happening where
  mark : Mark
  calls : Trace

namespace Happening

/-- What was announced. -/
def announcements (h : Happening) : List Event := h.mark.moment.announcements h.mark.channel

/-- The moment on a text box, if it is on it. -/
def on? (c : Channel) (h : Happening) : Option Moment := h.mark.on? c

/-- The calls are those that belong to the moment. -/
def Fits (h : Happening) : Prop := h.mark.moment.Presents h.mark.channel h.calls

end Happening

/-- The moments on record are those that happened. -/
theorem Acts.filterMap_on? {acts : Acts} {l : List Happening} (h : l.map (·.mark) = acts.marks)
    (c : Channel) : l.filterMap (Happening.on? c) = acts.on c := by
  rw [on, ← h, List.filterMap_map]
  rfl

/-- Happenings for some marks, and what they add. -/
theorem Scene.exists_happenings {o : Operation} {x y : Scene} {ks : List (Option Mark)}
    (h : Path (Step o) x ks y) :
    ∃ l : List Happening, l.map (·.mark) = ks.reduceOption ∧ (∀ k ∈ l, k.Fits) ∧
      x.Adds y (l.flatMap (·.calls)) (l.flatMap (·.announcements)) := by
  induction h with
  | refl => exact ⟨[], rfl, List.forall_mem_nil _, .refl _⟩
  | @cons x y z k? ks h _ ih =>
    obtain ⟨l, hl, hfits, hadds⟩ := ih
    have hshows := h.shows
    cases k? with
    | none => exact ⟨l, hl, hfits, Adds.trans hshows hadds⟩
    | some k =>
      obtain ⟨calls, hcalls, hk⟩ := hshows
      refine ⟨⟨k, calls⟩ :: l, ?_, List.forall_mem_cons.2 ⟨hcalls, hfits⟩, hk.trans hadds⟩
      rw [List.map_cons, hl]
      rfl

theorem Playback.exists_happenings {x y : Playback} {acts : Acts} (h : x.Plays acts y) :
    ∃ l : List Happening, l.map (·.mark) = acts.marks ∧ (∀ k ∈ l, k.Fits) ∧
      (Scene.of x).Adds (.of y) (l.flatMap (·.calls)) (l.flatMap (·.announcements)) := by
  induction h with
  | nil => exact ⟨[], rfl, List.forall_mem_nil _, .refl _⟩
  | @cons x y o ks acts h _ ih =>
    obtain ⟨l, hl, hfits, hadds⟩ := Scene.exists_happenings h
    obtain ⟨l', hl', hfits', hadds'⟩ := ih
    refine ⟨l ++ l', ?_, List.forall_mem_append.2 ⟨hfits, hfits'⟩, ?_⟩
    · rw [List.map_append, hl, hl', Acts.marks, Acts.marks, List.flatMap_cons,
        List.reduceOption_append]
    · rw [List.flatMap_append, List.flatMap_append]
      exact Scene.Adds.trans ⟨hadds.callsOf_trace, hadds.announced_events⟩ hadds'

/-! ## Moments on one text box -/

section

variable {α : Type} {next : α → Moment → α → Prop} {v : View α}

/-- What is seen on a text box changes moment by moment, as it may. -/
theorem Scene.path_see (hv : v.Follows next) {o : Operation} {x y : Scene}
    {ks : List (Option Mark)} (h : Path (Step o) x ks y) (c : Channel) (hx : x.Sound) :
    Path next (x.see v c) (ks.reduceOption.filterMap (Mark.on? c)) (y.see v c) := by
  induction h with
  | refl => exact .refl
  | @cons x y z k? ks h _ ih =>
    have hmoves := h.moves hv hx c
    have hrest := ih (h.sound hx)
    cases k? with
    | none => exact (hmoves : y.see v c = x.see v c) ▸ hrest
    | some k =>
      rw [List.reduceOption_cons_of_some]
      have hon : momentOn c (some k) = k.on? c := rfl
      rw [hon] at hmoves
      cases hm : k.on? c with
      | none =>
        rw [hm] at hmoves
        rw [List.filterMap_cons_none hm]
        exact (hmoves : y.see v c = x.see v c) ▸ hrest
      | some m =>
        rw [hm] at hmoves
        rw [List.filterMap_cons_some hm]
        exact .cons hmoves hrest

/-- So it does as a game asks for operations. -/
theorem Playback.Plays.path_see (hv : v.Follows next) {x y : Playback} {acts : Acts}
    (h : x.Plays acts y) (c : Channel) (hx : (Scene.of x).Sound) :
    Path next ((Scene.of x).see v c) (acts.on c) ((Scene.of y).see v c) := by
  induction h with
  | nil => exact .refl
  | @cons x y o ks acts h _ ih =>
    rw [Acts.on_cons, ← Scene.see_asked hv x o]
    have hasked := hx.asked o
    exact (Scene.path_see hv h c hasked).trans (ih (Scene.sound_of_reaches ⟨ks, h⟩ hasked))

end

theorem Score.follows_of_path {t u : Score} {ms : List Moment} (h : Path Next t ms u) :
    Follows t ms u := by
  induction h with
  | refl => exact .nil
  | cons hm _ ih => exact .cons hm ih

theorem Playback.follows_of_plays {x y : Playback} {acts : Acts} (h : x.Plays acts y)
    (c : Channel) (hx : (Scene.of x).Sound) :
    Score.Follows ((Scene.of x).score c) (acts.on c) ((Scene.of y).score c) := by
  rw [← Scene.see_score, ← Scene.see_score]
  exact Score.follows_of_path (h.path_see Score.follows_view c hx)

/-! ## Beginnings and ends among the events -/

/-- Whether an event tells of the main performance. -/
def Event.isMain : Event → Bool
  | conversationStarted _ | conversationEnded _ => true
  | _ => false

/-- Whether an event tells of the end of the main performance. -/
def Event.isMainEnd : Event → Bool
  | conversationEnded _ => true
  | _ => false

/-- Whether an event tells of the end of what is on a text box. -/
def Event.isEndOn : Channel → Event → Bool
  | .main, conversationEnded _ => true
  | .background id, backgroundFinished other => other == id
  | _, _ => false

theorem Event.isEndOn_main (e : Event) : e.isEndOn .main = e.isMainEnd := by cases e <;> rfl

theorem Event.isEndOn_background (id : Nat) (e : Event) :
    e.isEndOn (.background id) = (e == .backgroundFinished id) := by
  cases e <;> simp [isEndOn]

/-- Conversations start and end by turns, and what ends is what started last. -/
inductive Alternates : List Event → Prop
  | nil : Alternates []
  | started (name : String) : Alternates [.conversationStarted name]
  | ended (name : String) {es : List Event} : Alternates es →
    Alternates (.conversationStarted name :: .conversationEnded name :: es)

/-- What is announced of moments that follow the score, after what the score stands for. -/
theorem Score.Follows.alternates {t u : Score} {ms : List Moment} (h : Follows t ms u) :
    Alternates ((t.name?.map .conversationStarted).toList ++
      ms.flatMap (·.announcements .main)) := by
  induction h with
  | @nil t =>
    rw [List.flatMap_nil, List.append_nil]
    cases t with
    | silent => exact .nil
    | between name => exact .started name
    | revealing name _ => exact .started name
  | cons hnext _ ih =>
    rw [List.flatMap_cons]
    cases hnext with
    | begun => exact ih
    | ended hname =>
      rw [hname]
      exact .ended _ ih
    | _ => exact ih

/-! ## The record -/

/-- What is true of what happened in a playback. -/
structure Orderly (x : Playback) (l : List Happening) : Prop where
  /-- Nothing was called or announced but in some moment. -/
  calls : callsOf x.trace = l.flatMap (·.calls)
  announced_events : announced x.events = l.flatMap (·.announcements)
  fits : ∀ h ∈ l, h.Fits
  /-- On each text box, the moments are well formed. -/
  wellPerformed : ∀ c, WellPerformed (l.filterMap (Happening.on? c))
  /-- Conversations start and end by turns on the main text box. -/
  alternates : Alternates (x.events.filter (·.isMain))
  /-- The main text box is closed when a conversation ends, and never else. -/
  count_close : x.trace.count (.close .main) = x.events.countP (·.isMainEnd)

/-- What is announced of the main performance is what its moments announce. -/
theorem filter_isMain_announcements (l : List Happening) :
    (l.flatMap (·.announcements)).filter (·.isMain) =
      (l.filterMap (Happening.on? .main)).flatMap (·.announcements .main) := by
  induction l with
  | nil => rfl
  | cons h l ih =>
    obtain ⟨⟨c, m⟩, calls⟩ := h
    rw [List.flatMap_cons, List.filter_append, ih]
    cases c with
    | main =>
      have hon : Happening.on? .main ⟨⟨.main, m⟩, calls⟩ = some m := Mark.on?_self ..
      rw [List.filterMap_cons_some hon, List.flatMap_cons]
      refine congrArg (· ++ _) ?_
      cases m <;> rfl
    | background id =>
      have hon : Happening.on? .main ⟨⟨.background id, m⟩, calls⟩ = none :=
        Mark.on?_of_ne (by simp) m
      rw [List.filterMap_cons_none hon]
      cases m <;> rfl

/-- A text box is closed in a moment as often as its end is announced. -/
theorem Moment.Presents.count_close {c : Channel} {calls : Trace} {m : Moment}
    (h : m.Presents c calls) (d : Channel) :
    calls.count (.close d) = (m.announcements c).countP (·.isEndOn d) := by
  by_cases hclose : .close d ∈ calls
  · obtain ⟨⟨name, why, rfl⟩, rfl, rfl⟩ := h.of_close hclose
    cases d <;> simp [announcements, Event.isEndOn]
  · rw [List.count_eq_zero.2 hclose]
    refine (List.countP_eq_zero.2 fun e he hend => hclose ?_).symm
    cases m with
    | ended name why =>
      rw [show calls = [.close c] from h]
      cases c <;> cases d <;> simp_all [announcements, Event.isEndOn]
    | _ => cases c <;> simp_all [announcements, Event.isEndOn]

theorem count_close_calls {l : List Happening} (hl : ∀ h ∈ l, h.Fits) (d : Channel) :
    (l.flatMap (·.calls)).count (.close d) =
      (l.flatMap (·.announcements)).countP (·.isEndOn d) := by
  rw [List.count_flatMap, List.countP_flatMap]
  exact congrArg List.sum (List.map_congr_left fun h hh => (hl h hh).count_close d)

/-- Events of the main performance are announced. -/
theorem filter_isMain_announced (es : List Event) :
    (announced es).filter (·.isMain) = es.filter (·.isMain) := by
  rw [announced, List.filter_filter]
  refine List.filter_congr fun e _ => ?_
  cases e <;> rfl

theorem countP_isMainEnd_announced (es : List Event) :
    (announced es).countP (·.isMainEnd) = es.countP (·.isMainEnd) := by
  rw [announced, List.countP_filter]
  refine List.countP_congr fun e _ => ?_
  cases e <;> simp [Event.isMainEnd, Event.isAnnouncement]

namespace Playback

/-- **What happened is on record, in an orderly way**, if nothing had happened before. -/
theorem Plays.exists_orderly {library : Library} {setting : Setting} {vars : Variables}
    {acts : Acts} {y : Playback} (h : (Playback.new library setting vars).Plays acts y)
    (hx : (Scene.of (.new library setting vars)).Sound) :
    ∃ l : List Happening, l.map (·.mark) = acts.marks ∧ Orderly y l := by
  obtain ⟨l, hl, hfits, hadds⟩ := exists_happenings h
  have hon := Acts.filterMap_on? hl
  have hfollows : ∀ c, Score.Follows .silent (acts.on c) ((Scene.of y).score c) := by
    intro c
    have hplays := follows_of_plays h c hx
    cases c <;> exact hplays
  have hcalls : callsOf y.trace = l.flatMap (·.calls) := hadds.callsOf_trace
  have hevents : announced y.events = l.flatMap (·.announcements) := hadds.announced_events
  refine ⟨l, hl, hcalls, hevents, hfits, fun c => ?_, ?_, ?_⟩
  · rw [hon c]
    exact Score.wellPerformed_of_follows (hfollows c)
  · have halternates := (hfollows .main).alternates
    rw [← hon .main, ← filter_isMain_announcements, ← hevents, filter_isMain_announced]
      at halternates
    exact halternates
  · rw [← countP_isMainEnd_announced, hevents, ← funext Event.isEndOn_main,
      ← count_close_calls hfits, ← hcalls]
    exact (List.count_filter rfl).symm

/-- **Everything happens in order.** Whatever conversations are stored, however the variables stand
and whatever operations a game asks for, the operations are steps, one after the other, and all that
was called and announced in them is on record, in an orderly way. -/
theorem orderly_run (entries : List (String × Conversation)) (setting : Setting)
    (vars : Variables) (os : List Operation) :
    let x := Playback.new (.stocked entries) setting vars
    ∃ (acts : Acts) (l : List Happening), acts.map (·.1) = os ∧ x.Plays acts (x.run os) ∧
      l.map (·.mark) = acts.marks ∧ Orderly (x.run os) l := by
  intro x
  have hx : (Scene.of x).Sound :=
    Scene.sound_new (Library.sound_stocked entries) setting vars
  obtain ⟨acts, hos, hplays⟩ := exists_plays os hx
  obtain ⟨l, hl, horderly⟩ := hplays.exists_orderly hx
  exact ⟨acts, l, hos, hplays, hl, horderly⟩

end Playback

end Colloquy
