import Colloquy.Proofs.Playback.Record

/-!
# Proofs/Playback/Lifetime — a background conversation starts once and ends once

Each background conversation has an id, and with it a text box, that no other ever had. So on such a
text box at most one conversation begins (`Playback.Plays.numbers`), and what is known of the
moments on any text box says the rest: between its beginning and its end, and nowhere else,
something is put on the text box, and the session keeps it as long as it has not ended
(`Housekept`).
-/

namespace Colloquy

open Markup

/-! ## One conversation on a text box -/

namespace Moment

/-- Whether a conversation begins. -/
def isBeginning : Moment → Bool
  | begun .. => true
  | _ => false

/-- Whether a conversation ends. -/
def isEnd : Moment → Bool
  | ended .. => true
  | _ => false

end Moment

namespace Score

/-- How many conversations go on. -/
def running : Score → Nat
  | silent => 0
  | between _ | revealing .. => 1

theorem running_of_name? {t : Score} {name : String} (h : t.name? = some name) :
    t.running = 1 := by
  cases t with
  | silent => cases h
  | _ => rfl

/-- As many conversations have begun as have ended, but for the one that goes on. -/
theorem Follows.countP_isBeginning {t u : Score} {ms : List Moment} (h : Follows t ms u) :
    t.running + ms.countP (·.isBeginning) = ms.countP (·.isEnd) + u.running := by
  induction h with
  | nil => rw [List.countP_nil, List.countP_nil, Nat.zero_add, Nat.add_zero]
  | cons hnext _ ih =>
    rw [List.countP_cons, List.countP_cons]
    cases hnext with
    | ended hname =>
      rw [running_of_name? hname]
      simp only [running, Moment.isBeginning, Moment.isEnd, Bool.false_eq_true, if_false, if_true]
        at ih ⊢
      omega
    | _ =>
      simp only [running, Moment.isBeginning, Moment.isEnd, Bool.false_eq_true, if_false, if_true]
        at ih ⊢
      omega

/-- **Where only one conversation begins**, everything happens after it has begun and before it has
ended. -/
theorem Follows.of_countP_le_one {ms : List Moment} {t : Score} (h : Follows silent ms t)
    (hone : ms.countP (·.isBeginning) ≤ 1) {a b : List Moment} {m : Moment}
    (hms : ms = a ++ m :: b) :
    a.countP (·.isEnd) = 0 ∧ (a ++ [m]).countP (·.isBeginning) = 1 := by
  subst hms
  obtain ⟨u, w, ha, hm, -⟩ := h.split_cons
  have hcount : 0 + _ = _ + u.running := ha.countP_isBeginning
  rw [List.countP_append, List.countP_cons] at hone
  rw [List.countP_append, List.countP_singleton]
  -- only a beginning happens where nothing goes on, so the count before `m` tells which it is
  have hbegin : u.running = if m.isBeginning then 0 else 1 := by
    cases hm with
    | ended hname => exact running_of_name? hname
    | _ => rfl
  cases hm : m.isBeginning <;> simp only [hm, Bool.false_eq_true, if_false, if_true] at * <;> omega

end Score

/-! ## Ids -/

/-- The id of a conversation that begins in the background. -/
def Mark.begunId? : Mark → Option Nat
  | ⟨.background id, .begun ..⟩ => some id
  | _ => none

/-- The ids of the conversations that begin in the background. -/
def begunIds (ks : List Mark) : List Nat := ks.filterMap Mark.begunId?

theorem begunIds_append (ks js : List Mark) : begunIds (ks ++ js) = begunIds ks ++ begunIds js :=
  List.filterMap_append

theorem begunIds_reduceOption_cons (k? : Option Mark) (ks : List (Option Mark)) :
    begunIds (k? :: ks).reduceOption =
      (k?.bind Mark.begunId?).toList ++ begunIds ks.reduceOption := by
  cases k? with
  | none => rfl
  | some k =>
    rw [List.reduceOption_cons_of_some, begunIds, List.filterMap_cons, Option.bind_some]
    cases k.begunId? <;> rfl

namespace Scene

/-- Ids of background conversations are taken in order: what begins takes the next one. -/
theorem Step.begunId? {o : Operation} {x y : Scene} {k? : Option Mark} (h : Step o x k? y) :
    x.session.nextId ≤ y.session.nextId ∧
      ∀ id, k?.bind Mark.begunId? = some id →
        x.session.nextId ≤ id ∧ id < y.session.nextId := by
  cases h with
  | @lead m? l h =>
    refine ⟨Nat.le_refl _, fun id hid => ?_⟩
    cases m? <;> cases hid
  | ambient hb h =>
    refine ⟨Nat.le_refl _, fun id hid => ?_⟩
    cases h <;> cases hid
  | beginBackground =>
    refine ⟨Nat.le_succ _, fun id hid => ?_⟩
    cases hid
    exact ⟨Nat.le_refl _, Nat.lt_succ_self _⟩
  | skipId => exact ⟨Nat.le_succ _, fun id hid => by cases hid⟩
  | _ => exact ⟨Nat.le_refl _, fun id hid => by cases hid⟩

/-- The ids that are taken on the way grow. -/
structure Numbers (x : Scene) (ids : List Nat) (y : Scene) : Prop where
  pairwise : ids.Pairwise (· < ·)
  bounds : ∀ id ∈ ids, x.session.nextId ≤ id ∧ id < y.session.nextId
  le : x.session.nextId ≤ y.session.nextId

theorem Numbers.trans {x y z : Scene} {ids jds : List Nat} (h : x.Numbers ids y)
    (k : y.Numbers jds z) : x.Numbers (ids ++ jds) z := by
  refine ⟨List.pairwise_append.2 ⟨h.pairwise, k.pairwise, fun i hi j hj => ?_⟩, fun id hid => ?_,
    Nat.le_trans h.le k.le⟩
  · exact Nat.lt_of_lt_of_le (h.bounds i hi).2 (k.bounds j hj).1
  · rcases List.mem_append.1 hid with hid | hid
    · exact ⟨(h.bounds id hid).1, Nat.lt_of_lt_of_le (h.bounds id hid).2 k.le⟩
    · exact ⟨Nat.le_trans h.le (k.bounds id hid).1, (k.bounds id hid).2⟩

theorem numbers_of_path {o : Operation} {x y : Scene} {ks : List (Option Mark)}
    (h : Path (Step o) x ks y) : x.Numbers (begunIds ks.reduceOption) y := by
  induction h with
  | refl => exact ⟨.nil, List.forall_mem_nil _, Nat.le_refl _⟩
  | @cons x y z k? ks h _ ih =>
    obtain ⟨hle, hid⟩ := h.begunId?
    have hhead : x.Numbers (k?.bind Mark.begunId?).toList y := by
      refine ⟨?_, fun id hmem => hid id (Option.mem_toList.1 hmem), hle⟩
      cases k?.bind Mark.begunId? with
      | none => exact .nil
      | some id => exact List.pairwise_singleton ..
    rw [begunIds_reduceOption_cons]
    exact hhead.trans ih

/-- Background conversations are kept in the order of their ids. -/
theorem Step.pairwise_ids {o : Operation} {x y : Scene} {k? : Option Mark} (h : Step o x k? y)
    (hx : x.Sound) (hids : (x.session.background.map (·.id)).Pairwise (· < ·)) :
    (y.session.background.map (·.id)).Pairwise (· < ·) := by
  cases h with
  | @ambient before after b m? a hb h =>
    have hmem : b ∈ x.session.background := hb ▸ List.mem_append_right _ (List.mem_cons_self ..)
    rw [hb, List.map_append, List.map_cons] at hids
    rw [withBackground, List.map_append, List.map_cons, (h.sound (hx.background b hmem)).2]
    exact hids
  | @beginBackground name script d hl hb hd =>
    obtain ⟨anchor, moved, hv⟩ := x.newcomer_fst name script d
    rw [Scene.beginBackground, List.map_append, List.map_singleton, hv]
    refine List.pairwise_append.2 ⟨hids, List.pairwise_singleton .., fun i hi j hj => ?_⟩
    obtain ⟨b, hb, rfl⟩ := List.mem_map.1 hi
    rw [List.mem_singleton.1 hj]
    exact hx.id_lt b hb
  | @forget before after b hb hp =>
    rw [hb] at hids
    exact hids.sublist ((List.Sublist.append_left (List.sublist_cons_self ..) _).map _)
  | _ => exact hids

end Scene

namespace Playback

theorem Plays.numbers {x y : Playback} {acts : Acts} (h : x.Plays acts y) :
    (Scene.of x).Numbers (begunIds acts.marks) (.of y) := by
  induction h with
  | nil => exact ⟨.nil, List.forall_mem_nil _, Nat.le_refl _⟩
  | @cons x y o ks acts h _ ih =>
    have hids : begunIds (Acts.marks ((o, ks) :: acts)) =
        begunIds ks.reduceOption ++ begunIds acts.marks := by
      rw [Acts.marks, List.flatMap_cons, List.reduceOption_append, begunIds_append]
      rfl
    obtain ⟨hpair, hbounds, hle⟩ := Scene.numbers_of_path h
    rw [hids]
    exact Scene.Numbers.trans ⟨hpair, hbounds, hle⟩ ih

theorem Plays.pairwise_ids {x y : Playback} {acts : Acts} (h : x.Plays acts y)
    (hx : (Scene.of x).Sound)
    (hids : (x.session.background.map (·.id)).Pairwise (· < ·)) :
    (y.session.background.map (·.id)).Pairwise (· < ·) := by
  induction h with
  | nil => exact hids
  | cons h _ ih =>
    have hkeeps := h.keeps
      (P := fun z => z.Sound ∧ (z.session.background.map (·.id)).Pairwise (· < ·))
      (fun _ _ _ hstep hz => ⟨hstep.sound hz.1, hstep.pairwise_ids hz.1 hz.2⟩) ⟨hx.asked _, hids⟩
    exact ih hkeeps.1 hkeeps.2

end Playback

/-! ## What is over is not kept -/

theorem Background.phase_ne_finished {b : Background} (h : ¬ b.isFinished = true) :
    b.phase ≠ .finished := fun hp => h (by rw [isFinished, hp]; rfl)

namespace Session

/-- No background conversation that is kept is over. -/
def Live (x : Session) : Prop := ∀ b ∈ x.background, b.phase ≠ .finished

theorem Live.startBackground {x : Session} (h : x.Live) (name : String) (script : Conversation) :
    (x.startBackground name script).session.Live := by
  unfold Session.startBackground
  dsimp only
  split
  · exact h
  · split
    · exact h
    · exact List.forall_mem_append.2
        ⟨h, List.forall_mem_singleton.2 (Background.phase_ne_finished ‹_›)⟩

theorem Live.launch {x : Session} (h : x.Live) (name : String) : (x.launch name).session.Live := by
  have hnoted : Live { x with stage := x.stage.annotate (x.library.retrieve name).notes } := h
  unfold Session.launch
  dsimp only
  split
  · exact h
  · split
    · exact hnoted.startBackground name _
    · exact h

theorem live_closeBackground (x : Session) : x.closeBackground.Live := List.forall_mem_nil _

theorem Live.carryOut {x : Session} (h : x.Live) (r : Request) : (x.carryOut r).Live := by
  cases r with
  | startBackgroundConversation name => exact h.launch name
  | closeBackgroundConversations => exact live_closeBackground x
  | _ => exact h

theorem Live.routeWithin (limit : Nat) : ∀ {x : Session}, x.Live → (x.routeWithin limit).Live := by
  induction limit with
  | zero =>
    intro x h
    unfold Session.routeWithin
    cases x.stage.requests <;> exact h
  | succ limit ih =>
    intro x h
    unfold Session.routeWithin
    cases x.stage.requests with
    | nil => exact h
    | cons r rest =>
      have htaken : Live { x with stage := { x.stage with requests := rest } } := h
      exact ih (htaken.carryOut r)

/-- As time passes, what comes to an end is left out. -/
theorem phase_of_mem_tickAll {setting : Setting} {dt : Single} (bs : List Background) :
    ∀ {s : Stage}, ∀ b ∈ (tickAll setting dt bs s).1, b.phase ≠ .finished := by
  induction bs with
  | nil => exact List.forall_mem_nil _
  | cons b bs ih =>
    intro s
    unfold tickAll
    dsimp only
    split
    · exact ih
    · exact List.forall_mem_cons.2 ⟨Background.phase_ne_finished ‹_›, ih⟩

theorem Live.perform {x : Session} (h : x.Live) (o : Operation) : (x.perform o).Live := by
  cases o with
  | start name => exact (h.launch name).routeWithin _
  | next | select index => exact Live.routeWithin _ h
  | closeBackground => exact live_closeBackground x
  | tick dt => exact Live.routeWithin _ (phase_of_mem_tickAll x.background)
  | load name text =>
    unfold Session.perform Session.load
    dsimp only
    split <;> exact h
  | _ => exact h

end Session

theorem Playback.live_run (os : List Operation) :
    ∀ {x : Playback}, x.session.Live → (x.run os).session.Live := by
  induction os with
  | nil => exact fun h => h
  | cons o os ih => exact fun h => ih (h.perform o)

/-- The text box of an id is silent exactly if no conversation of that id is kept. -/
theorem Background.scoreOf_ne_silent_iff {bs : List Background} (h : ∀ b ∈ bs, b.phase ≠ .finished)
    (id : Nat) : scoreOf bs id ≠ .silent ↔ id ∈ bs.map (·.id) := by
  constructor
  · intro hscore
    by_contra hmem
    exact hscore (scoreOf_of_forall_ne fun b hb heq => hmem (heq ▸ List.mem_map_of_mem hb))
  · intro hmem hscore
    obtain ⟨b, hb, heq⟩ := List.mem_map.1 hmem
    have hfind : (bs.find? (·.id == id)).isSome := List.find?_isSome.2 ⟨b, hb, beq_iff_eq.2 heq⟩
    obtain ⟨c, hc⟩ := Option.isSome_iff_exists.1 hfind
    have hphase := h c (List.mem_of_find?_eq_some hc)
    have hsilent : c.score = .silent := by rwa [scoreOf, hc] at hscore
    cases hp : c.phase with
    | finished => exact hphase hp
    | _ =>
      rw [score, hp] at hsilent
      cases hsilent

/-! ## Events and calls -/

/-- The id of a background conversation that an event says has started. -/
def Event.startedId? : Event → Option Nat
  | backgroundStarted id _ => some id
  | _ => none

/-- The ids of the background conversations that have started. -/
def startedIds (es : List Event) : List Nat := es.filterMap Event.startedId?

theorem startedIds_append (es fs : List Event) :
    startedIds (es ++ fs) = startedIds es ++ startedIds fs := List.filterMap_append

namespace Happening

/-- An end is announced in the very moment in which the text box is closed. -/
theorem Fits.count_close {h : Happening} (hh : h.Fits) (id : Nat) :
    h.calls.count (.close (.background id)) =
      h.announcements.count (.backgroundFinished id) := by
  rw [List.count, List.count, ← funext (Event.isEndOn_background id)]
  exact Moment.Presents.count_close hh (.background id)

variable (id : Nat)

/-- What is announced of a text box is counted by the moments on it. -/
theorem countP_announcements {p : Event → Bool} {q : Moment → Bool}
    (hself : ∀ m : Moment, (m.announcements (.background id)).countP p = if q m then 1 else 0)
    (hother : ∀ (c : Channel) (m : Moment), c ≠ .background id →
      (m.announcements c).countP p = 0) (l : List Happening) :
    (l.flatMap (·.announcements)).countP p =
      (l.filterMap (on? (.background id))).countP q := by
  induction l with
  | nil => rfl
  | cons h l ih =>
    obtain ⟨⟨c, m⟩, calls⟩ := h
    rw [List.flatMap_cons, List.countP_append, ih, announcements]
    by_cases hc : c = .background id
    · subst hc
      have hon : on? (.background id) ⟨⟨.background id, m⟩, calls⟩ = some m := Mark.on?_self ..
      rw [List.filterMap_cons_some hon, List.countP_cons, hself, Nat.add_comm]
    · have hon : on? (.background id) ⟨⟨c, m⟩, calls⟩ = none := Mark.on?_of_ne hc m
      rw [List.filterMap_cons_none hon, hother c m hc, Nat.zero_add]

theorem count_startedIds (l : List Happening) :
    (startedIds (l.flatMap (·.announcements))).count id =
      (l.filterMap (on? (.background id))).countP (·.isBeginning) := by
  rw [startedIds, List.count_filterMap]
  refine countP_announcements id (fun m => ?_) (fun c m hc => ?_) l
  · cases m <;> simp [Moment.announcements, Event.startedId?, Moment.isBeginning]
  · cases c <;> cases m <;> simp_all [Moment.announcements, Event.startedId?]

theorem count_backgroundFinished (l : List Happening) :
    (l.flatMap (·.announcements)).count (.backgroundFinished id) =
      (l.filterMap (on? (.background id))).countP (·.isEnd) := by
  refine countP_announcements id (fun m => ?_) (fun c m hc => ?_) l
  · cases m <;> simp [Moment.announcements, Moment.isEnd]
  · cases c <;> cases m <;> simp_all [Moment.announcements]

/-- What has started in the background is what has begun there. -/
theorem startedIds_announcements (l : List Happening) :
    startedIds (l.flatMap (·.announcements)) = begunIds (l.map (·.mark)) := by
  induction l with
  | nil => rfl
  | cons h l ih =>
    obtain ⟨⟨c, m⟩, calls⟩ := h
    rw [List.flatMap_cons, startedIds, List.filterMap_append, ← startedIds, ← startedIds, ih,
      List.map_cons, begunIds, begunIds, List.filterMap_cons]
    cases c <;> cases m <;> rfl

/-- What is announced to have ended has ended on its text box. -/
theorem on?_of_finished {h : Happening} (hmem : .backgroundFinished id ∈ h.announcements) :
    (∃ m, h.on? (.background id) = some m) ∧ startedIds h.announcements = [] := by
  obtain ⟨⟨c, m⟩, calls⟩ := h
  cases c <;> cases m <;> simp [announcements, Moment.announcements] at hmem
  subst hmem
  exact ⟨⟨_, Mark.on?_self ..⟩, rfl⟩

end Happening

/-- An element of some lists in a row stands in one of them. -/
theorem exists_of_flatMap_eq {α β : Type} {f : α → List β} {e : β} {after : List β} (l : List α) :
    ∀ {before : List β}, l.flatMap f = before ++ e :: after →
      ∃ a x b before' after', l = a ++ x :: b ∧ f x = before' ++ e :: after' ∧
        before = a.flatMap f ++ before' ∧ after = after' ++ b.flatMap f := by
  induction l with
  | nil =>
    intro before h
    simp at h
  | cons x l ih =>
    intro before h
    rw [List.flatMap_cons] at h
    rcases List.append_eq_append_iff.1 h with ⟨before', rfl, hrest⟩ | ⟨c, hx, hrest⟩
    · obtain ⟨a, y, b, before'', after', rfl, hy, rfl, hafter⟩ := ih hrest
      exact ⟨x :: a, y, b, before'', after', rfl, hy, by simp, hafter⟩
    · cases c with
      | nil =>
        have hhead : l.flatMap f = [] ++ e :: after := hrest.symm
        obtain ⟨a, y, b, before', after', rfl, hy, hnil, hafter⟩ := ih hhead
        refine ⟨x :: a, y, b, before', after', rfl, hy, ?_, hafter⟩
        rw [List.flatMap_cons, List.append_assoc, ← hnil, hx, List.append_nil, List.append_nil]
      | cons d c =>
        obtain ⟨rfl, rfl⟩ := List.cons.inj hrest
        exact ⟨[], x, l, before, c, rfl, hx, rfl, rfl⟩

/-! ## Records on which no id is taken twice -/

/-- What happens on the text boxes of background conversations follows their scores, and no two of
them begin under one id. -/
structure Numbered (l : List Happening) (score : Nat → Score) : Prop where
  fits : ∀ h ∈ l, h.Fits
  follows : ∀ id,
    Score.Follows .silent (l.filterMap (Happening.on? (.background id))) (score id)
  count_le : ∀ id, (startedIds (l.flatMap (·.announcements))).count id ≤ 1

namespace Numbered

variable {l : List Happening} {score : Nat → Score} {id : Nat}

/-- A conversation that has started has ended, or goes on. -/
theorem count_startedIds (hl : Numbered l score) (id : Nat) :
    (startedIds (l.flatMap (·.announcements))).count id =
      (l.flatMap (·.announcements)).count (.backgroundFinished id) + (score id).running := by
  have hbalance := (hl.follows id).countP_isBeginning
  rw [Happening.count_startedIds, Happening.count_backgroundFinished, ← hbalance]
  exact (Nat.zero_add _).symm

theorem count_finished_le (hl : Numbered l score) (id : Nat) :
    (l.flatMap (·.announcements)).count (.backgroundFinished id) ≤ 1 := by
  have hcount := hl.count_startedIds id
  have hle := hl.count_le id
  omega

/-- It goes on exactly if it has started and not ended. -/
theorem score_ne_silent_iff (hl : Numbered l score) (id : Nat) :
    score id ≠ .silent ↔ id ∈ startedIds (l.flatMap (·.announcements)) ∧
      .backgroundFinished id ∉ l.flatMap (·.announcements) := by
  have hcount := hl.count_startedIds id
  have hle := hl.count_le id
  rw [← List.count_pos_iff, ← List.count_eq_zero]
  cases hscore : score id with
  | silent =>
    rw [hscore, Score.running] at hcount
    simp only [ne_eq, not_true_eq_false, false_iff, not_and]
    omega
  | _ =>
    rw [hscore, Score.running] at hcount
    simp only [ne_eq, reduceCtorEq, not_false_eq_true, true_iff]
    omega

/-- **Everything on its text box happens after its start and before its end.** -/
theorem started_and_not_finished (hl : Numbered l score) {a b : List Happening} {h : Happening}
    (hsplit : l = a ++ h :: b) {m : Moment} (hm : h.on? (.background id) = some m) :
    id ∈ startedIds ((a ++ [h]).flatMap (·.announcements)) ∧
      .backgroundFinished id ∉ a.flatMap (·.announcements) := by
  have hone := hl.count_le id
  rw [Happening.count_startedIds] at hone
  have hms : l.filterMap (Happening.on? (.background id)) =
      a.filterMap (Happening.on? (.background id)) ++
        m :: b.filterMap (Happening.on? (.background id)) := by
    rw [hsplit, List.filterMap_append, List.filterMap_cons_some hm]
  obtain ⟨hend, hbegin⟩ := (hl.follows id).of_countP_le_one hone hms
  have hlast : [m] = [h].filterMap (Happening.on? (.background id)) := by
    rw [List.filterMap_cons_some hm, List.filterMap_nil]
  rw [← Happening.count_backgroundFinished] at hend
  rw [hlast, ← List.filterMap_append, ← Happening.count_startedIds] at hbegin
  exact ⟨List.count_pos_iff.1 (hbegin ▸ Nat.one_pos), List.count_eq_zero.1 hend⟩

theorem between (hl : Numbered l score) {a b : List Happening} {h : Happening}
    (hsplit : l = a ++ h :: b) {e : Entry} (he : e ∈ h.calls)
    (hchannel : e.channel? = some (.background id)) :
    id ∈ startedIds ((a ++ [h]).flatMap (·.announcements)) ∧
      .backgroundFinished id ∉ a.flatMap (·.announcements) := by
  have hmem : h ∈ l := hsplit ▸ List.mem_append_right _ (List.mem_cons_self ..)
  have hc : .background id = h.mark.channel := (hl.fits h hmem).channel he hchannel
  exact hl.started_and_not_finished hsplit (m := h.mark.moment) (if_pos hc.symm)

/-- What is announced to have ended was announced to have started. -/
theorem started (hl : Numbered l score) {before after : List Event}
    (hsplit : l.flatMap (·.announcements) = before ++ .backgroundFinished id :: after) :
    id ∈ startedIds before := by
  obtain ⟨a, h, b, before', after', rfl, hh, rfl, -⟩ := exists_of_flatMap_eq l hsplit
  obtain ⟨⟨m, hm⟩, hnone⟩ := Happening.on?_of_finished id (h := h) (by rw [hh]; simp)
  have hid := (hl.started_and_not_finished rfl hm).1
  rw [List.flatMap_append, startedIds_append, List.flatMap_singleton, hnone, List.append_nil] at hid
  rw [startedIds_append]
  exact List.mem_append_left _ hid

/-- A text box is closed for good. -/
theorem not_after_close (hl : Numbered l score) {before after : Trace}
    (hsplit : l.flatMap (·.calls) = before ++ .close (.background id) :: after) {e : Entry}
    (he : e ∈ after) : e.channel? ≠ some (.background id) := by
  intro hchannel
  obtain ⟨a, h, b, before', after', rfl, hh, -, rfl⟩ := exists_of_flatMap_eq l hsplit
  have hfits := hl.fits h (List.mem_append_right _ (List.mem_cons_self ..))
  have hclose : .close (.background id) ∈ h.calls := by rw [hh]; simp
  have hend : .backgroundFinished id ∈ h.announcements :=
    List.count_pos_iff.1 (hfits.count_close id ▸ List.count_pos_iff.2 hclose)
  -- closing is all that is called at an end, so whatever follows is of a later happening
  have hnil : after' = [] := by
    rw [(Moment.Presents.of_close hfits hclose).2.2] at hh
    obtain ⟨-, h⟩ | ⟨-, h⟩ := List.append_eq_singleton_iff.1 hh.symm
    · exact (List.cons.inj h).2
    · cases h
  rw [hnil, List.nil_append] at he
  obtain ⟨k, hk, hcall⟩ := List.mem_flatMap.1 he
  obtain ⟨b₁, b₂, rfl⟩ := List.append_of_mem hk
  have hsplit : a ++ h :: (b₁ ++ k :: b₂) = (a ++ h :: b₁) ++ k :: b₂ := by
    rw [List.append_assoc, List.cons_append]
  refine (hl.between hsplit hcall hchannel).2 (List.mem_flatMap.2 ⟨h, ?_, hend⟩)
  exact List.mem_append_right _ (List.mem_cons_self ..)

/-- The text boxes of background conversations are closed as often as ends are announced. -/
theorem count_close (hl : Numbered l score) (id : Nat) :
    (l.flatMap (·.calls)).count (.close (.background id)) =
      (l.flatMap (·.announcements)).count (.backgroundFinished id) := by
  rw [count_close_calls hl.fits, funext (Event.isEndOn_background id)]
  rfl

end Numbered

/-! ## The lives of background conversations -/

/-- What is true of background conversations in a playback, and of the record of it. -/
structure Housekept (x : Playback) (l : List Happening) : Prop where
  /-- Nothing was called or announced but in some moment. -/
  calls : callsOf x.trace = l.flatMap (·.calls)
  announced_events : announced x.events = l.flatMap (·.announcements)
  /-- Ids grow, and so none is used again. -/
  increasing : (startedIds x.events).Pairwise (· < ·)
  /-- A conversation ends once, if at all, and after its start. -/
  count_finished_le : ∀ id, x.events.count (.backgroundFinished id) ≤ 1
  started : ∀ id before after, x.events = before ++ .backgroundFinished id :: after →
    id ∈ startedIds before
  /-- Its text box is closed when its end is announced, and never else. -/
  closed : ∀ h ∈ l, ∀ id,
    h.calls.count (.close (.background id)) = h.announcements.count (.backgroundFinished id)
  count_close : ∀ id,
    x.trace.count (.close (.background id)) = x.events.count (.backgroundFinished id)
  /-- Something is put on its text box after its start, and before its end. -/
  between : ∀ a h b, l = a ++ h :: b → ∀ e ∈ h.calls, ∀ id, e.channel? = some (.background id) →
    id ∈ startedIds ((a ++ [h]).flatMap (·.announcements)) ∧
      .backgroundFinished id ∉ a.flatMap (·.announcements)
  not_after_close : ∀ id before after, x.trace = before ++ .close (.background id) :: after →
    ∀ e ∈ after, e.channel? ≠ some (.background id)
  /-- What goes on has started and not ended. -/
  running : x.session.background.map (·.id) =
    (startedIds x.events).filter fun id => .backgroundFinished id ∉ x.events

theorem startedIds_announced (es : List Event) : startedIds (announced es) = startedIds es := by
  rw [startedIds, announced, List.filterMap_filter]
  refine List.filterMap_congr fun e _ => ?_
  cases e <;> rfl

theorem count_backgroundFinished_announced (es : List Event) (id : Nat) :
    (announced es).count (.backgroundFinished id) = es.count (.backgroundFinished id) :=
  List.count_filter rfl

/-- What grows is known by what is in it. -/
theorem eq_filter_of_pairwise {kept ids : List Nat} {p : Nat → Prop} [DecidablePred p]
    (hkept : kept.Pairwise (· < ·)) (hids : ids.Pairwise (· < ·))
    (h : ∀ id, id ∈ kept ↔ id ∈ ids ∧ p id) : kept = ids.filter p := by
  have hfilter : (ids.filter p).Pairwise (· < ·) := hids.sublist List.filter_sublist
  have hperm : kept.Perm (ids.filter p) :=
    (List.perm_ext_iff_of_nodup (hkept.imp Nat.ne_of_lt) (hfilter.imp Nat.ne_of_lt)).2 fun id => by
      rw [h, List.mem_filter, decide_eq_true_iff]
  exact hperm.eq_of_pairwise (fun _ _ _ _ hij hji => absurd hij (Nat.lt_asymm hji)) hkept hfilter

namespace Playback

/-- **Background conversations are kept as long as they live**, whatever happens. -/
theorem Plays.exists_housekept {library : Library} {setting : Setting} {vars : Variables}
    {acts : Acts} {y : Playback} (h : (Playback.new library setting vars).Plays acts y)
    (hx : (Scene.of (.new library setting vars)).Sound) (hlive : y.session.Live) :
    ∃ l : List Happening, l.map (·.mark) = acts.marks ∧ (∀ k ∈ l, k.Fits) ∧ Housekept y l := by
  obtain ⟨l, hl, hfits, hadds⟩ := exists_happenings h
  have hcalls : callsOf y.trace = l.flatMap (·.calls) := hadds.callsOf_trace
  have hevents : announced y.events = l.flatMap (·.announcements) := hadds.announced_events
  have hstarted : startedIds y.events = startedIds (l.flatMap (·.announcements)) := by
    rw [← hevents, startedIds_announced]
  have hids : (startedIds y.events).Pairwise (· < ·) := by
    rw [hstarted, Happening.startedIds_announcements, hl]
    exact h.numbers.pairwise
  have hnumbered : Numbered l (Background.scoreOf y.session.background) := by
    refine ⟨hfits, fun id => ?_, List.nodup_iff_count.1 (hstarted ▸ hids.imp Nat.ne_of_lt)⟩
    rw [Acts.filterMap_on? hl]
    exact follows_of_plays h (.background id) hx
  have hfinished : ∀ id, y.events.count (.backgroundFinished id) =
      (l.flatMap (·.announcements)).count (.backgroundFinished id) := by
    intro id
    rw [← hevents, count_backgroundFinished_announced]
  refine ⟨l, hl, hfits, ?_⟩
  constructor
  case calls => exact hcalls
  case announced_events => exact hevents
  case increasing => exact hids
  case count_finished_le => exact fun id => hfinished id ▸ hnumbered.count_finished_le id
  case started =>
    intro id before after hsplit
    have hannounced : l.flatMap (·.announcements) =
        announced before ++ .backgroundFinished id :: announced after := by
      rw [← hevents, hsplit, announced_append]
      rfl
    rw [← startedIds_announced]
    exact hnumbered.started hannounced
  case closed => exact fun h hh => (hfits h hh).count_close
  case count_close =>
    intro id
    rw [hfinished, ← hnumbered.count_close, ← hcalls]
    exact (List.count_filter rfl).symm
  case between => exact fun a h b hsplit e he id => hnumbered.between hsplit he
  case not_after_close =>
    intro id before after hsplit e he hchannel
    have hcall : l.flatMap (·.calls) =
        callsOf before ++ .close (.background id) :: callsOf after := by
      rw [← hcalls, hsplit, callsOf_append]
      rfl
    have hmem : e ∈ callsOf after := List.mem_filter.2 ⟨he, Entry.isCall_of_channel? hchannel⟩
    exact hnumbered.not_after_close hcall hmem hchannel
  case running =>
    refine eq_filter_of_pairwise (h.pairwise_ids hx .nil) hids fun id => ?_
    rw [← Background.scoreOf_ne_silent_iff hlive, hnumbered.score_ne_silent_iff, hstarted,
      ← List.count_eq_zero, ← hfinished, List.count_eq_zero]

/-- **Background conversations start once and end once.** Whatever conversations are stored, however
the variables stand and whatever operations a game asks for, all that was called and announced is on
record, and each background conversation is kept from its start to its end. -/
theorem housekept_run (entries : List (String × Conversation)) (setting : Setting)
    (vars : Variables) (os : List Operation) :
    let x := Playback.new (.stocked entries) setting vars
    ∃ (acts : Acts) (l : List Happening), acts.map (·.1) = os ∧ x.Plays acts (x.run os) ∧
      l.map (·.mark) = acts.marks ∧ (∀ h ∈ l, h.Fits) ∧ Housekept (x.run os) l := by
  intro x
  have hx : (Scene.of x).Sound :=
    Scene.sound_new (Library.sound_stocked entries) setting vars
  have hlive : (x.run os).session.Live := live_run os (List.forall_mem_nil _)
  obtain ⟨acts, hos, hplays⟩ := exists_plays os hx
  obtain ⟨l, hl, hfits, hkept⟩ := hplays.exists_housekept hx hlive
  exact ⟨acts, l, hos, hplays, hl, hfits, hkept⟩

end Playback

end Colloquy
