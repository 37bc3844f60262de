import Colloquy.Proofs.Playback.Scene

/-!
# Proofs/Playback/Perform — an operation is steps, one after the other

Whatever a game asks of a session, what happens is steps (`Scene.reaches_perform`). They start where
the operation has given the player something to do (`Scene.asked`), and end where nothing is left to
do.
-/

namespace Colloquy

open Markup

namespace Scene

variable {o : Operation} {heard : List Event}

/-! ## Parts of a session -/

/-- What is done in the main performance happens in the session. -/
theorem reaches_lead {x : Scene} {l : Lead}
    (h : Reaches (Lead.Act x.session.setting o) x.lead l) :
    Reaches (Step o) x (x.withLead l) :=
  h.map (f := x.withLead) (·.map (.mk .main)) fun hact => .lead hact

/-- What is done in a background conversation happens in the session. -/
theorem reaches_ambient {x : Scene} (before after : List Background) {a a' : Ambient}
    (h : Reaches (Ambient.Act x.session.setting o) a a') :
    Reaches (Step o) (x.withBackground (before ++ a.background :: after) a.stage)
      (x.withBackground (before ++ a'.background :: after) a'.stage) := by
  obtain ⟨ms, h⟩ := h
  induction h with
  | refl => exact .refl _
  | @cons a _ _ _ _ hact _ ih =>
    exact .cons (.ambient (x := x.withBackground (before ++ a.background :: after) a.stage)
      rfl hact) ih

/-- Notes are taken. -/
theorem reaches_annotate (x : Scene) (notes : List Note) :
    Reaches (Step o) x (x.withStage (x.session.stage.annotate notes)) :=
  reaches_lead (.single (.note notes))

/-! ## Background conversations as time passes -/

theorem reaches_tickAll {x : Scene} {dt : Single} (ho : o = .tick dt)
    (bs : List Background) :
    ∀ (before : List Background) (s : Stage), (∀ b ∈ bs, b.Sound) →
      Reaches (Step o) (x.withBackground (before ++ bs) s)
        (x.withBackground (before ++ (Session.tickAll x.session.setting dt bs s).1)
          (Session.tickAll x.session.setting dt bs s).2) := by
  induction bs with
  | nil => exact fun _ _ _ => .refl _
  | cons b bs ih =>
    intro before s hb
    obtain ⟨hsound, hlater⟩ := List.forall_mem_cons.1 hb
    refine .trans (reaches_ambient before bs (Ambient.reaches_tick hsound ho s)) ?_
    unfold Session.tickAll
    rcases b.tick x.session.setting dt s with ⟨b', s'⟩
    dsimp only [Ambient.of]
    split
    case isTrue hover =>
      refine .cons (.forget rfl ?_) (ih before s' hlater)
      exact eq_of_beq hover
    case isFalse =>
      have h := ih (before ++ [b']) s' hlater
      rw [List.append_assoc, List.append_assoc] at h
      exact h

/-- Background conversations are ended one after the other. -/
theorem reaches_finishAll {x : Scene} (bs : List Background) :
    ∀ s : Stage, Reaches (Step o) (x.withBackground bs s)
      (x.withBackground [] (Session.finishAll bs s)) := by
  induction bs with
  | nil => exact fun _ => .refl _
  | cons b bs ih =>
    intro s
    unfold Session.finishAll
    have hover : (b.finish s).1.phase = .finished := by
      by_cases hp : b.phase = .finished
      · rw [Background.finish, Background.isFinished, hp]
        exact hp
      · rw [Background.finish_of_active hp]
    have hforget : Step o (x.withBackground ([] ++ (b.finish s).1 :: bs) (b.finish s).2) none
        (x.withBackground ([] ++ bs) (b.finish s).2) := .forget rfl hover
    refine .trans ?_ (.cons hforget (ih _))
    by_cases hp : b.phase = .finished
    · have hsame : b.finish s = (b, s) := by
        rw [Background.finish, Background.isFinished, hp]
        rfl
      rw [hsame]
      exact .refl _
    · exact reaches_ambient [] bs (.single (.finish .stopped hp))

/-! ## Beginnings -/

theorem reaches_startMain {x : Session} {name : String} {script : Conversation}
    (hl : x.library.get? name = some script) (hs : script.Sound) (hb : script.background = false) :
    Reaches (Step o) ⟨x, none, heard⟩ ⟨(x.startMain name script).session, none, heard⟩ := by
  unfold Session.startMain Player.start
  cases hp : x.player.playing with
  | some q => exact reaches_annotate ⟨x, none, heard⟩ _
  | none =>
    rw [Option.isSome_none, if_neg Bool.false_ne_true]
    cases hd : (script.startingPoint x.stage.vars).value with
    | none =>
      have hstart : x.stage.startingPoint script = (none, (x.stage.startingPoint script).2) := by
        rw [← hd]
        rfl
      rw [hstart]
      exact (reaches_annotate ⟨x, none, heard⟩ _).trans (reaches_annotate _ _)
    | some d =>
      have hstart : x.stage.startingPoint script = (some d, (x.stage.startingPoint script).2) := by
        rw [← hd]
        rfl
      rw [hstart]
      let q : Performance := { name, script, dialogue := d }
      obtain ⟨raw, ho, h⟩ := Lead.enter_eq (q := q) x.setting hs
        (Conversation.mem_of_startingPoint hd) (x.player.put q)
        ((x.stage.startingPoint script).2.report (.conversationStarted name))
      have hsay : Lead.Act x.setting o (Scene.begin ⟨x, none, heard⟩ name script d).lead _ _ :=
        .say (q := q) rfl rfl ho
      refine .cons (.begin hl hb hp rfl hd) ?_
      dsimp only
      rw [show Player.enter x.setting q d { x.player with playing := some q } _ = _ from h]
      exact reaches_lead (x := Scene.begin ⟨x, none, heard⟩ name script d) (.single hsay)

theorem reaches_startBackground {x : Session} {name : String} {script : Conversation}
    (hl : x.library.get? name = some script) (hs : script.Sound) (hb : script.background = true) :
    Reaches (Step o) ⟨x, none, heard⟩ ⟨(x.startBackground name script).session, none, heard⟩ := by
  unfold Session.startBackground
  dsimp only
  cases hd : (script.startingPoint x.stage.vars).value with
  | none =>
    have hstart : Background.start x.setting x.nextId name script x.stage =
        (.error (.noStartingPoint name), (x.stage.startingPoint script).2.annotate
          [.failure (PlaybackError.noStartingPoint name).message]) := by
      unfold Background.start
      rw [show x.stage.startingPoint script = (none, (x.stage.startingPoint script).2) by
        rw [← hd]; rfl]
    rw [hstart]
    exact .cons .skipId ((reaches_annotate _ _).trans (reaches_annotate _ _))
  | some d =>
    obtain ⟨raw, ho, h⟩ := Background.start_eq x.setting x.nextId name hs hd
    rw [h]
    obtain ⟨anchor, moved, hv⟩ := Scene.newcomer_fst ⟨x, none, heard⟩ name script d
    let y := Scene.beginBackground ⟨x, none, heard⟩ name script d
    have hsay : Ambient.Act x.setting o
        ⟨(Scene.newcomer ⟨x, none, heard⟩ name script d).1, y.session.stage⟩ _ _ :=
      .say (x := 0) (by rw [hv]) (by rw [hv]; exact ho)
    refine .cons (.beginBackground hl hb hd) ?_
    exact reaches_ambient (x := y) x.background [] (.single hsay)

theorem reaches_launch {x : Session} (hl : x.library.Sound) (name : String) :
    Reaches (Step o) ⟨x, none, heard⟩ ⟨(x.launch name).session, none, heard⟩ := by
  unfold Session.launch Library.retrieve
  cases hscript : x.library.get? name with
  | none => exact reaches_annotate ⟨x, none, heard⟩ _
  | some script =>
    let y : Session := { x with stage := x.stage.annotate [] }
    refine .trans (reaches_annotate ⟨x, none, heard⟩ []) ?_
    dsimp only
    split
    case isTrue hb => exact reaches_startBackground (x := y) hscript (hl _ _ hscript) hb
    case isFalse hb =>
      exact reaches_startMain (x := y) hscript (hl _ _ hscript) (Bool.eq_false_iff.2 hb)

/-! ## Requests -/

theorem reaches_closeBackground (x : Session) :
    Reaches (Step o) ⟨x, none, heard⟩ ⟨x.closeBackground, none, heard⟩ :=
  reaches_finishAll (x := ⟨x, none, heard⟩) x.background x.stage

/-- A request is carried out. -/
theorem reaches_carryOut {x : Session} (hl : x.library.Sound) {r : Request} {rest : List Request}
    (hr : x.stage.requests = r :: rest) :
    Reaches (Step o) ⟨x, none, heard⟩
      ⟨({ x with stage := { x.stage with requests := rest } } : Session).carryOut r, none,
        heard⟩ := by
  cases r with
  | closeConversation =>
    unfold Session.carryOut Session.stop
    cases hq : x.player.playing with
    | none =>
      rw [Player.stop_of_idle (by exact hq)]
      exact .single (.take hr fun _ => hq)
    | some q =>
      exact reaches_lead (x := ⟨x, none, heard⟩) (.cons (.obey hq hr) (.single (.finish hq)))
  | changeTheme theme => exact .single (.theme hr)
  | startBackgroundConversation name =>
    let y : Session := { x with stage := { x.stage with requests := rest } }
    exact .cons (.take hr (by simp)) (reaches_launch (x := y) hl name)
  | closeBackgroundConversations =>
    exact .cons (.take hr (by simp)) (reaches_closeBackground _)

/-- Requests are carried out one after the other. -/
theorem reaches_routeWithin (limit : Nat) :
    ∀ x : Session, (Scene.mk x none heard).Sound →
      Reaches (Step o) ⟨x, none, heard⟩ ⟨x.routeWithin limit, none, heard⟩ := by
  induction limit with
  | zero =>
    intro x hx
    unfold Session.routeWithin
    cases hr : x.stage.requests with
    | nil => exact .refl _
    | cons r rest => exact .cons .drop (reaches_annotate _ _)
  | succ limit ih =>
    intro x hx
    unfold Session.routeWithin
    cases hr : x.stage.requests with
    | nil => exact .refl _
    | cons r rest =>
      have h : Reaches (Step o) ⟨x, none, heard⟩ _ := reaches_carryOut hx.library hr
      exact h.trans (ih _ (sound_of_reaches h hx))

theorem reaches_route {x : Scene} {y : Session} (hx : x.Sound)
    (h : Reaches (Step o) x ⟨y, none, heard⟩) : Reaches (Step o) x ⟨y.route, none, heard⟩ :=
  h.trans (reaches_routeWithin _ y (sound_of_reaches h hx))

/-! ## Operations -/

theorem reaches_load (x : Session) (name text : String) :
    Reaches (Step (.load name text)) ⟨x, none, heard⟩
      ⟨(x.load name text).2, none, heard⟩ := by
  refine .trans (reaches_annotate ⟨x, none, heard⟩ (x.library.load name text).notes) ?_
  unfold Session.load
  dsimp only
  cases hl : (x.library.load name text).result with
  | ok library => exact .single (.load rfl hl)
  | error e => exact .refl _

/-- **Whatever a game asks for is steps, one after the other.** -/
theorem reaches_perform {x : Playback} (hx : (of x).Sound) (o : Operation) :
    Reaches (Step o) (asked x o) (of (x.perform o)) := by
  obtain ⟨x, heard⟩ := x
  have hasked := hx.asked o
  cases o with
  | start name => exact reaches_route hasked (reaches_launch hx.library name)
  | next =>
    have hlead : Reaches (Step .next) (asked ⟨x, heard⟩ .next) _ :=
      reaches_lead (Lead.reaches_next hx.playing)
    exact reaches_route hasked hlead
  | select index =>
    have hlead : Reaches (Step (.select index)) (asked ⟨x, heard⟩ (.select index)) _ :=
      reaches_lead (Lead.reaches_select hx.playing index)
    exact reaches_route hasked hlead
  | stop =>
    exact reaches_lead (x := asked ⟨x, heard⟩ .stop) (Lead.reaches_stop x.player x.stage)
  | closeBackground => exact reaches_closeBackground x
  | tick dt =>
    let y : Scene := withLead ⟨x, none, heard⟩ (.of none (x.player.tick x.setting dt x.stage))
    have hlead : Reaches (Step (.tick dt)) ⟨x, none, heard⟩ y :=
      reaches_lead (Lead.reaches_tick hx.playing rfl)
    have hrest : Reaches (Step (.tick dt)) y _ :=
      reaches_tickAll (x := y) rfl x.background [] y.session.stage hx.background
    exact reaches_route hasked (hlead.trans hrest)
  | load name text => exact reaches_load x name text
  | vary v => exact .single (.vary rfl)
  | drain => exact .single (.drain rfl)

end Scene

end Colloquy
