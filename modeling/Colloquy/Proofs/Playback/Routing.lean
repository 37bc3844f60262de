import Colloquy.Proofs.Playback.Record

/-!
# Proofs/Playback/Routing — requests are carried out once each, and raise no other

Carrying out a request may start a conversation, and whoever starts a conversation then sees to the
requests that are pending: the two call one another (`Session.Runs`). They come to an end since a
conversation that starts says a sentence and does nothing else: every dialogue of a stored script
has one, and the tags and actions that raise requests only come after it. So nothing that is carried
out looks at the pending requests, or adds to them (`carryOut_withQueue`), and one batch is all
there is to an operation (`RoutedOnce`).
-/

namespace Colloquy

open Markup

/-! ## What takes no account of the pending requests -/

/-- The stage with other pending requests. -/
def Stage.withQueue (s : Stage) (rs : List Request) : Stage := { s with requests := rs }

/-- Something is done on a stage without looking at the pending requests, and without adding to
them. -/
def IgnoresQueue {α : Type} (f : Stage → α × Stage) : Prop :=
  ∀ s rs, f (s.withQueue rs) = ((f s).1, (f s).2.withQueue rs)

theorem Stage.startingPoint_withQueue (s : Stage) (rs : List Request) (script : Conversation) :
    (s.withQueue rs).startingPoint script =
      ((s.startingPoint script).1, (s.startingPoint script).2.withQueue rs) := rfl

namespace Player

variable (setting : Setting) (p : Player)

theorem ignoresQueue_stop : IgnoresQueue p.stop := by
  intro s rs
  unfold stop
  split <;> rfl

theorem ignoresQueue_dress (d : Dialogue) : IgnoresQueue (p.dress d) := by
  intro s rs
  unfold dress
  split
  · split <;> rfl
  · rfl

theorem ignoresQueue_portraitOf (d : Dialogue) : IgnoresQueue (portraitOf setting d) := by
  intro s rs
  unfold portraitOf
  split <;> rfl

theorem introduce_withQueue (d : Dialogue) (s : Stage) (rs : List Request) :
    introduce setting d (s.withQueue rs) = (introduce setting d s).withQueue rs := by
  unfold introduce
  dsimp only
  rw [show (s.withQueue rs).observe [.speaker .main (d.speaker?.getD "")] =
    (s.observe [.speaker .main (d.speaker?.getD "")]).withQueue rs from rfl,
    ignoresQueue_portraitOf]
  rfl

theorem ignoresQueue_say (q : Performance) (raw : String) :
    IgnoresQueue (p.say setting q raw) := by
  intro s rs
  unfold say
  dsimp only
  rw [ignoresQueue_dress p q.dialogue s rs]
  cases !q.opening && q.lastSpeaker == q.dialogue.speaker? with
  | true => rfl
  | false =>
    refine Prod.ext rfl ?_
    exact introduce_withQueue setting q.dialogue
      (((p.dress q.dialogue s).2.read raw).2.observe _) rs

/-- In a sound script, wherever a performance enters, it says a sentence, and does nothing else. -/
theorem ignoresQueue_enter {q : Performance} (hs : q.script.Sound) {d : Dialogue}
    (hd : d ∈ q.script.dialogues) : IgnoresQueue (Player.enter setting q d p) := by
  intro s rs
  obtain ⟨raw, ho, h⟩ := Lead.enter_eq setting hs hd p s
  obtain ⟨raw', ho', h'⟩ := Lead.enter_eq setting hs hd p (s.withQueue rs)
  cases ho.symm.trans ho'
  rw [h, h']
  exact ignoresQueue_say setting _ _ raw s rs

theorem start_withQueue (name : String) {script : Conversation} (hs : script.Sound) (s : Stage)
    (rs : List Request) :
    p.start setting name script (s.withQueue rs) =
      { p.start setting name script s with
        stage := (p.start setting name script s).stage.withQueue rs } := by
  unfold start
  rw [Stage.startingPoint_withQueue]
  split
  · rfl
  · obtain ⟨d?, s', hs'⟩ : ∃ d? s', s.startingPoint script = (d?, s') := ⟨_, _, rfl⟩
    rw [hs']
    cases d? with
    | none => rfl
    | some d =>
      let q : Performance := { name, script, dialogue := d }
      have hd : d ∈ q.script.dialogues :=
        Conversation.mem_of_startingPoint (congrArg Prod.fst hs')
      have henter := ignoresQueue_enter setting (p.put q) (q := q) hs hd
        (s'.report (.conversationStarted name)) rs
      exact congrArg (fun x : Player × Stage => Turn.mk (.ok ()) x.1 x.2) henter

end Player

namespace Background

variable (setting : Setting) (b : Background)

theorem ignoresQueue_finish : IgnoresQueue b.finish := by
  intro s rs
  unfold finish
  split <;> rfl

theorem ignoresQueue_visit (first : Bool) (d : Dialogue) :
    IgnoresQueue fun s => b.visit first s d := by
  intro s rs
  unfold visit
  dsimp only
  split
  · split <;> rfl
  · rfl

theorem ignoresQueue_start (id : Nat) (name : String) {script : Conversation} (hs : script.Sound) :
    IgnoresQueue (Background.start setting id name script) := by
  intro s rs
  cases hd : (script.startingPoint s.vars).value with
  | none =>
    unfold start
    rw [Stage.startingPoint_withQueue,
      show s.startingPoint script = (none, (s.startingPoint script).2) by rw [← hd]; rfl]
    rfl
  | some d =>
    obtain ⟨raw, ho, h⟩ := start_eq setting id name hs hd
    obtain ⟨raw', ho', h'⟩ := start_eq setting id name hs (s := s.withQueue rs) hd
    cases ho.symm.trans ho'
    rw [h, h', Stage.startingPoint_withQueue]
    have hvisit := ignoresQueue_visit { id, name, script, dialogue := d, phase := .holding 0 }
      true d ((s.startingPoint script).2.report (.backgroundStarted id name)) rs
    dsimp only at hvisit ⊢
    rw [show ((s.startingPoint script).2.withQueue rs).report (.backgroundStarted id name) =
      ((s.startingPoint script).2.report (.backgroundStarted id name)).withQueue rs from rfl,
      hvisit]
    rfl

end Background

/-! ## A session -/

namespace Session

/-- The session with other pending requests. -/
def withQueue (x : Session) (rs : List Request) : Session :=
  { x with stage := x.stage.withQueue rs }

theorem withQueue_self {x : Session} {rs : List Request} (h : x.stage.requests = rs) :
    x.withQueue rs = x := by
  rw [← h]
  rfl

theorem finishAll_withQueue (bs : List Background) :
    ∀ (s : Stage) (rs : List Request),
      finishAll bs (s.withQueue rs) = (finishAll bs s).withQueue rs := by
  induction bs with
  | nil => exact fun _ _ => rfl
  | cons b bs ih =>
    intro s rs
    rw [finishAll, b.ignoresQueue_finish, ih, finishAll]

theorem launch_of_missing {x : Session} {name : String} (h : x.library.get? name = none) :
    x.launch name = ⟨.error (.conversationNotFound name),
      { x with stage := x.stage.annotate (x.library.retrieve name).notes }⟩ := by
  unfold launch Library.retrieve
  rw [h]

theorem launch_of_stored {x : Session} {name : String} {script : Conversation}
    (h : x.library.get? name = some script) :
    x.launch name =
      if script.background then x.startBackground name script else x.startMain name script := by
  have hnone : x.stage.annotate [] = x.stage := by
    rw [Stage.annotate, Stage.observe, List.map_nil, List.append_nil]
  unfold launch Library.retrieve
  rw [h]
  dsimp only
  rw [hnone]

theorem startMain_withQueue (x : Session) (name : String) {script : Conversation}
    (hs : script.Sound) (rs : List Request) :
    ((x.withQueue rs).startMain name script).session =
      (x.startMain name script).session.withQueue rs := by
  unfold startMain
  dsimp only
  rw [show (x.withQueue rs).player.start (x.withQueue rs).setting name script
    (x.withQueue rs).stage = _ from
    Player.start_withQueue x.setting x.player name hs x.stage rs]
  rfl

theorem startBackground_withQueue (x : Session) (name : String) {script : Conversation}
    (hs : script.Sound) (rs : List Request) :
    ((x.withQueue rs).startBackground name script).session =
      (x.startBackground name script).session.withQueue rs := by
  unfold startBackground
  dsimp only
  rw [show Background.start (x.withQueue rs).setting (x.withQueue rs).nextId name script
    (x.withQueue rs).stage = _ from
    Background.ignoresQueue_start x.setting x.nextId name hs x.stage rs]
  dsimp only
  cases (Background.start x.setting x.nextId name script x.stage).1 with
  | error e => rfl
  | ok b =>
    dsimp only
    split <;> rfl

/-- A stored conversation is started without regard to the pending requests. -/
theorem launch_withQueue {x : Session} (hl : x.library.Sound) (name : String)
    (rs : List Request) :
    ((x.withQueue rs).launch name).session = (x.launch name).session.withQueue rs := by
  cases h : x.library.get? name with
  | none =>
    rw [launch_of_missing h, launch_of_missing (x := x.withQueue rs) h]
    rfl
  | some script =>
    rw [launch_of_stored h, launch_of_stored (x := x.withQueue rs) h]
    split
    · exact startBackground_withQueue x name (hl _ _ h) rs
    · exact startMain_withQueue x name (hl _ _ h) rs

/-- **Nothing that is carried out looks at the pending requests**, or adds to them. -/
theorem carryOut_withQueue {x : Session} (hl : x.library.Sound) (r : Request)
    (rs : List Request) : (x.withQueue rs).carryOut r = (x.carryOut r).withQueue rs := by
  cases r with
  | closeConversation =>
    unfold carryOut stop
    rw [show (x.withQueue rs).player.stop (x.withQueue rs).stage = _ from
      x.player.ignoresQueue_stop x.stage rs]
    rfl
  | changeTheme theme => rfl
  | startBackgroundConversation name => exact launch_withQueue hl name rs
  | closeBackgroundConversations =>
    unfold carryOut closeBackground
    rw [show finishAll (x.withQueue rs).background (x.withQueue rs).stage = _ from
      finishAll_withQueue x.background x.stage rs]
    rfl

theorem requests_launch {x : Session} (hl : x.library.Sound) (name : String) :
    (x.launch name).session.stage.requests = x.stage.requests := by
  -- what takes no account of the queue leaves the one that is there as it is
  have h := launch_withQueue hl name x.stage.requests
  rw [withQueue_self rfl] at h
  rw [h]
  rfl

theorem requests_carryOut {x : Session} (hl : x.library.Sound) (r : Request) :
    (x.carryOut r).stage.requests = x.stage.requests := by
  have h := carryOut_withQueue hl r x.stage.requests
  rw [withQueue_self rfl] at h
  rw [h]
  rfl

theorem library_launch (x : Session) (name : String) :
    (x.launch name).session.library = x.library := by
  unfold launch startBackground startMain
  dsimp only
  split
  · rfl
  · split
    · split
      · rfl
      · split <;> rfl
    · rfl

theorem library_carryOut (x : Session) (r : Request) : (x.carryOut r).library = x.library := by
  cases r with
  | startBackgroundConversation name => exact x.library_launch name
  | _ => rfl

/-! ## The batch -/

/-- A request is taken and carried out, and then those that are left. -/
theorem routeWithin_cons {x : Session} (hl : x.library.Sound) (limit : Nat) (r : Request)
    (rs : List Request) :
    (x.withQueue (r :: rs)).routeWithin (limit + 1) =
      ((x.carryOut r).withQueue rs).routeWithin limit := by
  rw [← carryOut_withQueue hl]
  rfl

theorem routeWithin_nil (x : Session) (limit : Nat) :
    (x.withQueue []).routeWithin limit = x.withQueue [] := by
  unfold routeWithin
  rfl

/-- No request is pending when requests have been carried out. -/
theorem requests_routeWithin (limit : Nat) :
    ∀ x : Session, (x.routeWithin limit).stage.requests = [] := by
  induction limit with
  | zero =>
    intro x
    unfold routeWithin
    cases h : x.stage.requests with
    | nil => exact h
    | cons r rest => rfl
  | succ limit ih =>
    intro x
    unfold routeWithin
    cases h : x.stage.requests with
    | nil => exact h
    | cons r rest => exact ih _

/-- Requests that are not too many are carried out once each, in order. -/
theorem routeWithin_eq_foldl (rs : List Request) :
    ∀ {x : Session} {limit : Nat}, x.library.Sound → rs.length ≤ limit →
      (x.withQueue rs).routeWithin limit = rs.foldl carryOut (x.withQueue []) := by
  induction rs with
  | nil => exact fun _ _ => routeWithin_nil ..
  | cons r rs ih =>
    intro x limit hl hlen
    obtain ⟨limit, rfl⟩ := Nat.exists_eq_succ_of_ne_zero (Nat.ne_of_gt (Nat.lt_of_lt_of_le
      (Nat.succ_pos rs.length) hlen))
    rw [routeWithin_cons hl, ih (by rwa [library_carryOut]) (Nat.le_of_succ_le_succ hlen),
      List.foldl_cons, carryOut_withQueue hl]

/-- The requests that are left are dropped. -/
def giveUp (x : Session) : Session :=
  { x with
    stage := (x.stage.withQueue []).annotate
      [.warning "too many chained requests, dropping the rest"] }

/-- Of too many requests the first ones are carried out, and the others dropped. -/
theorem routeWithin_of_lt (limit : Nat) :
    ∀ {x : Session} {rs : List Request}, x.library.Sound → limit < rs.length →
      (x.withQueue rs).routeWithin limit =
        ((rs.take limit).foldl carryOut (x.withQueue [])).giveUp := by
  induction limit with
  | zero =>
    intro x rs _ hlen
    obtain ⟨r, rs, rfl⟩ := List.exists_cons_of_length_pos hlen
    rfl
  | succ limit ih =>
    intro x rs hl hlen
    obtain ⟨r, rs, rfl⟩ := List.exists_cons_of_length_pos (Nat.zero_lt_of_lt hlen)
    rw [routeWithin_cons hl, ih (by rwa [library_carryOut]) (Nat.lt_of_succ_lt_succ hlen),
      List.take_succ_cons, List.foldl_cons, carryOut_withQueue hl]

/-! ## Starting and routing call one another -/

/-- What is called as conversations are started and requests carried out: a start where a game asks
for one, a start where a request does, the requests batch by batch, and the rest of one batch. The
last two know how many requests have been carried out since routing began. -/
inductive RouterCall
  | start (name : String)
  | startBackground (name : String)
  | batches (done : Nat)
  | batch (done : Nat) (rs : List Request)

/-- What a call leads to. Each start passes a script of the other kind on to the other start, and
routes the pending requests when it has started one, with a count of its own; a request for a start
calls a start. -/
inductive Runs : RouterCall → Session → Session → Prop
  | missing {x : Session} {name : String} (h : x.library.get? name = none) :
    Runs (.start name) x { x with stage := x.stage.annotate (x.library.retrieve name).notes }
  | redirected {x y : Session} {name : String} {script : Conversation}
    (h : x.library.get? name = some script) (hb : script.background = true)
    (k : Runs (.startBackground name) x y) : Runs (.start name) x y
  | started {x y : Session} {name : String} {script : Conversation}
    (h : x.library.get? name = some script) (hb : script.background = false)
    (k : Runs (.batches 0) (x.startMain name script).session y) : Runs (.start name) x y
  | missingBackground {x : Session} {name : String} (h : x.library.get? name = none) :
    Runs (.startBackground name) x
      { x with stage := x.stage.annotate (x.library.retrieve name).notes }
  | redirectedBackground {x y : Session} {name : String} {script : Conversation}
    (h : x.library.get? name = some script) (hb : script.background = false)
    (k : Runs (.start name) x y) : Runs (.startBackground name) x y
  | refusedBackground {x : Session} {name : String} {script : Conversation} {e : PlaybackError}
    (h : x.library.get? name = some script) (hb : script.background = true)
    (he : (x.startBackground name script).result = .error e) :
    Runs (.startBackground name) x (x.startBackground name script).session
  | startedBackground {x y : Session} {name : String} {script : Conversation} {c : Channel}
    (h : x.library.get? name = some script) (hb : script.background = true)
    (hc : (x.startBackground name script).result = .ok c)
    (k : Runs (.batches 0) (x.startBackground name script).session y) :
    Runs (.startBackground name) x y
  | allDone {x : Session} {done : Nat} (h : x.stage.requests = []) : Runs (.batches done) x x
  | nextBatch {x y : Session} {done : Nat} (h : x.stage.requests ≠ [])
    (k : Runs (.batch done x.stage.requests) (x.withQueue []) y) : Runs (.batches done) x y
  | batchDone {x y : Session} {done : Nat} (k : Runs (.batches done) x y) :
    Runs (.batch done []) x y
  | tooMany {x : Session} {done : Nat} {r : Request} {rs : List Request}
    (h : requestLimit ≤ done) : Runs (.batch done (r :: rs)) x x.giveUp
  | requestStart {x y z : Session} {done : Nat} {name : String} {rs : List Request}
    (h : done < requestLimit) (k : Runs (.startBackground name) x y)
    (l : Runs (.batch (done + 1) rs) y z) :
    Runs (.batch done (.startBackgroundConversation name :: rs)) x z
  | request {x z : Session} {done : Nat} {r : Request} {rs : List Request}
    (h : done < requestLimit) (hr : ∀ name, r ≠ .startBackgroundConversation name)
    (l : Runs (.batch (done + 1) rs) (x.carryOut r) z) : Runs (.batch done (r :: rs)) x z

/-- What a call comes to: a launch, or requests carried out within what is left of the limit. -/
def RouterCall.outcome (x : Session) : RouterCall → Session
  | .start name | .startBackground name => (x.launch name).session
  | .batches done => x.routeWithin (requestLimit - done)
  | .batch done rs => (x.withQueue rs).routeWithin (requestLimit - done)

/-- No request is pending at a call, but those that are to be carried out. -/
def RouterCall.Ready (x : Session) : RouterCall → Prop
  | .batches _ => True
  | _ => x.stage.requests = []

/-- A request within the limit is carried out before the rest of its batch. -/
theorem outcome_batch_cons {x : Session} (hl : x.library.Sound) {done : Nat}
    (h : done < requestLimit) (r : Request) (rs : List Request) :
    RouterCall.outcome x (.batch done (r :: rs)) =
      RouterCall.outcome (x.carryOut r) (.batch (done + 1) rs) := by
  have hleft : requestLimit - done = requestLimit - (done + 1) + 1 := by omega
  rw [RouterCall.outcome, RouterCall.outcome, hleft, routeWithin_cons hl]

/-- Nothing is left to do after a start of a stored conversation. -/
theorem eq_launch_of_batches {x y : Session} {name : String} (hl : x.library.Sound)
    (hx : x.stage.requests = [])
    (h : y = RouterCall.outcome (x.launch name).session (.batches 0)) :
    y = (x.launch name).session := by
  have hnone : (x.launch name).session.stage.requests = [] := (requests_launch hl name).trans hx
  rw [h, RouterCall.outcome, ← withQueue_self hnone, routeWithin_nil]

theorem Runs.eq_outcome {c : RouterCall} {x y : Session} (h : Runs c x y) :
    x.library.Sound → c.Ready x → y = c.outcome x := by
  induction h with
  | missing h | missingBackground h =>
    intro _ _
    rw [RouterCall.outcome, launch_of_missing h]
  | redirected h hb k ih | redirectedBackground h hb k ih => exact ih
  | @started x y name script h hb k ih =>
    intro hl hx
    have hlaunch : x.launch name = x.startMain name script := by
      rw [launch_of_stored h, hb, if_neg Bool.false_ne_true]
    rw [← hlaunch] at ih
    exact eq_launch_of_batches hl hx (ih (by rwa [library_launch]) trivial)
  | @refusedBackground x name script e h hb he =>
    intro _ _
    rw [RouterCall.outcome, launch_of_stored h, if_pos hb]
  | @startedBackground x y name script c h hb hc k ih =>
    intro hl hx
    have hlaunch : x.launch name = x.startBackground name script := by
      rw [launch_of_stored h, if_pos hb]
    rw [← hlaunch] at ih
    exact eq_launch_of_batches hl hx (ih (by rwa [library_launch]) trivial)
  | allDone h =>
    intro _ _
    rw [RouterCall.outcome, ← withQueue_self h, routeWithin_nil]
  | nextBatch h k ih =>
    intro hl _
    exact ih hl rfl
  | batchDone k ih =>
    intro hl hx
    rw [ih hl trivial, RouterCall.outcome, RouterCall.outcome, withQueue_self hx]
  | tooMany h =>
    intro _ _
    rw [RouterCall.outcome, Nat.sub_eq_zero_of_le h]
    rfl
  | @requestStart x y z done name rs h k l ihk ihl =>
    intro hl hx
    obtain rfl := ihk hl hx
    rw [outcome_batch_cons hl h]
    exact ihl (by rwa [RouterCall.outcome, library_launch]) ((requests_launch hl name).trans hx)
  | @request x z done r rs h hr l ih =>
    intro hl hx
    rw [outcome_batch_cons hl h]
    exact ih (by rwa [library_carryOut]) ((requests_carryOut hl r).trans hx)

/-- A start comes to an end. -/
theorem runs_startBackground_of_background {x : Session} {name : String} {script : Conversation}
    (hl : x.library.Sound) (hx : x.stage.requests = []) (h : x.library.get? name = some script)
    (hb : script.background = true) : Runs (.startBackground name) x (x.launch name).session := by
  have hlaunch : x.launch name = x.startBackground name script := by
    rw [launch_of_stored h, if_pos hb]
  have hnone := (requests_launch hl name).trans hx
  rw [hlaunch] at hnone ⊢
  cases hr : (x.startBackground name script).result with
  | error e => exact .refusedBackground h hb hr
  | ok c => exact .startedBackground h hb hr (.allDone hnone)

theorem runs_start {x : Session} (hl : x.library.Sound) (hx : x.stage.requests = [])
    (name : String) : Runs (.start name) x (x.launch name).session := by
  cases h : x.library.get? name with
  | none =>
    rw [launch_of_missing h]
    exact .missing h
  | some script =>
    cases hb : script.background with
    | true => exact .redirected h hb (runs_startBackground_of_background hl hx h hb)
    | false =>
      have hlaunch : x.launch name = x.startMain name script := by
        rw [launch_of_stored h, hb, if_neg Bool.false_ne_true]
      have hnone := (requests_launch hl name).trans hx
      rw [hlaunch] at hnone ⊢
      exact .started h hb (.allDone hnone)

theorem runs_startBackground {x : Session} (hl : x.library.Sound) (hx : x.stage.requests = [])
    (name : String) : Runs (.startBackground name) x (x.launch name).session := by
  cases h : x.library.get? name with
  | none =>
    rw [launch_of_missing h]
    exact .missingBackground h
  | some script =>
    cases hb : script.background with
    | true => exact runs_startBackground_of_background hl hx h hb
    | false => exact .redirectedBackground h hb (runs_start hl hx name)

/-- A batch comes to an end, request by request. -/
theorem exists_runs_batch (rs : List Request) :
    ∀ {x : Session} {done : Nat}, x.library.Sound → x.stage.requests = [] →
      ∃ y, Runs (.batch done rs) x y := by
  induction rs with
  | nil => exact fun _ hx => ⟨_, .batchDone (.allDone hx)⟩
  | cons r rs ih =>
    intro x done hl hx
    by_cases h : done < requestLimit
    · have hl' : (x.carryOut r).library.Sound := by rwa [library_carryOut]
      obtain ⟨z, hz⟩ : ∃ z, Runs (.batch (done + 1) rs) (x.carryOut r) z :=
        ih hl' ((requests_carryOut hl r).trans hx)
      by_cases hr : ∃ name, r = .startBackgroundConversation name
      · obtain ⟨name, rfl⟩ := hr
        exact ⟨z, .requestStart h (runs_startBackground hl hx name) hz⟩
      · exact ⟨z, .request h (fun name heq => hr ⟨name, heq⟩) hz⟩
    · exact ⟨_, .tooMany (Nat.le_of_not_lt h)⟩

/-- **Starting and routing come to an end**, in the one way that there is. -/
theorem runs_iff {c : RouterCall} {x y : Session} (hl : x.library.Sound) (hc : c.Ready x) :
    Runs c x y ↔ y = c.outcome x := by
  refine ⟨fun h => h.eq_outcome hl hc, ?_⟩
  rintro rfl
  obtain ⟨y, hy⟩ : ∃ y, Runs c x y := by
    cases c with
    | start name => exact ⟨_, runs_start hl hc name⟩
    | startBackground name => exact ⟨_, runs_startBackground hl hc name⟩
    | batch done rs => exact exists_runs_batch rs hl hc
    | batches done =>
      by_cases h : x.stage.requests = []
      · exact ⟨_, .allDone h⟩
      · obtain ⟨y, hy⟩ : ∃ y, Runs (.batch done x.stage.requests) (x.withQueue []) y :=
          exists_runs_batch x.stage.requests hl rfl
        exact ⟨y, .nextBatch h hy⟩
  exact hy.eq_outcome hl hc ▸ hy

/-! ## Operations -/

/-- The session after an operation, before the requests that it raised are carried out. -/
def attempt (x : Session) : Operation → Session
  | .start name => (x.launch name).session
  | .next => (x.ofTurn (x.player.next x.setting x.stage)).session
  | .select index => (x.ofTurn (x.player.select x.setting index x.stage)).session
  | .tick dt =>
    let played := x.player.tick x.setting dt x.stage
    let ticked := tickAll x.setting dt x.background played.2
    { x with player := played.1, background := ticked.1, stage := ticked.2 }
  | o => x.perform o

/-- The session after requests were carried out, none of them pending. -/
def carryOutAll (x : Session) (rs : List Request) : Session := rs.foldl carryOut (x.withQueue [])

/-- What is known of the requests of an operation. -/
structure RoutedOnce (x : Session) (o : Operation) : Prop where
  /-- No request is pending after the operation. -/
  requests_perform : (x.perform o).stage.requests = []
  /-- Starting a stored conversation raises no request, wherever the session stands. -/
  requests_launch : ∀ y : Session, y.library = x.library → ∀ name,
    (y.launch name).session.stage.requests = y.stage.requests
  /-- No more does carrying out a request. -/
  requests_carryOut : ∀ y : Session, y.library = x.library → ∀ r,
    (y.carryOut r).stage.requests = y.stage.requests
  /-- Starting and routing, which call one another, come to an end, in one way. -/
  runs_start : ∀ name y, Runs (.start name) x y ↔ y = x.perform (.start name)
  runs_startBackground : ∀ name y, Runs (.startBackground name) x y ↔ y = x.perform (.start name)
  runs_batches : ∀ y, Runs (.batches 0) (x.attempt o) y ↔ y = x.perform o
  /-- The requests that the operation raised are carried out once each, in order. -/
  perform_of_le : (x.attempt o).stage.requests.length ≤ requestLimit →
    x.perform o = (x.attempt o).carryOutAll (x.attempt o).stage.requests
  /-- Of too many, the first ones are. -/
  perform_of_lt : requestLimit < (x.attempt o).stage.requests.length →
    x.perform o =
      ((x.attempt o).carryOutAll ((x.attempt o).stage.requests.take requestLimit)).giveUp

theorem requests_perform {x : Session} (hx : x.stage.requests = []) (o : Operation) :
    (x.perform o).stage.requests = [] := by
  cases o with
  | start | next | select | tick => exact requests_routeWithin ..
  | stop =>
    have h := x.player.ignoresQueue_stop x.stage []
    rw [show x.stage.withQueue [] = x.stage by rw [← hx]; rfl] at h
    unfold perform stop
    rw [h]
    rfl
  | closeBackground =>
    have h := finishAll_withQueue x.background x.stage []
    rw [show x.stage.withQueue [] = x.stage by rw [← hx]; rfl] at h
    unfold perform closeBackground
    rw [h]
    rfl
  | load name text =>
    unfold perform load
    dsimp only
    split <;> exact hx
  | vary v => cases v <;> exact hx
  | drain => exact hx

/-- An operation is its attempt, and what routing makes of that. -/
theorem perform_eq_route {x : Session} (hx : x.stage.requests = []) (o : Operation) :
    x.perform o = (x.attempt o).route := by
  have hnone : ∀ y : Session, y.stage.requests = [] → y = y.route := by
    intro y hy
    rw [route, ← withQueue_self hy, routeWithin_nil]
  cases o with
  | start | next | select | tick => rfl
  | _ => exact hnone _ (requests_perform hx _)

theorem sound_attempt {x : Session} (hl : x.library.Sound) (o : Operation) :
    (x.attempt o).library.Sound := by
  cases o with
  | start name =>
    rw [attempt, library_launch]
    exact hl
  | load name text =>
    unfold attempt perform load
    dsimp only
    split
    · exact hl.load ‹_›
    · exact hl
  | _ => exact hl

theorem routedOnce {x : Session} (hl : x.library.Sound) (hx : x.stage.requests = [])
    (o : Operation) : RoutedOnce x o := by
  have hroute := perform_eq_route hx o
  have hattempt := sound_attempt hl o
  have hqueue : (x.attempt o).withQueue (x.attempt o).stage.requests = x.attempt o :=
    withQueue_self rfl
  have hlaunch : ∀ name, x.perform (.start name) = (x.launch name).session := by
    intro name
    have hnone := (Session.requests_launch hl name).trans hx
    rw [perform_eq_route hx, route, attempt, ← withQueue_self hnone, routeWithin_nil]
  constructor
  case requests_perform => exact Session.requests_perform hx o
  case requests_launch => exact fun y hy => Session.requests_launch (hy ▸ hl)
  case requests_carryOut => exact fun y hy => Session.requests_carryOut (hy ▸ hl)
  case runs_start =>
    intro name y
    rw [hlaunch]
    exact runs_iff hl hx
  case runs_startBackground =>
    intro name y
    rw [hlaunch]
    exact runs_iff hl hx
  case runs_batches =>
    intro y
    rw [hroute]
    exact runs_iff hattempt trivial
  case perform_of_le =>
    intro hlen
    rw [hroute, route, ← hqueue]
    exact routeWithin_eq_foldl _ hattempt hlen
  case perform_of_lt =>
    intro hlen
    rw [hroute, route, ← hqueue]
    exact routeWithin_of_lt _ hattempt hlen

end Session

namespace Playback

/-- What operations keep: no request is pending between two of them, and performers can rely on
what they rely on. -/
theorem sound_and_settled_run (os : List Operation) :
    ∀ {x : Playback}, (Scene.of x).Sound → x.session.stage.requests = [] →
      (Scene.of (x.run os)).Sound ∧ (x.run os).session.stage.requests = [] := by
  induction os with
  | nil => exact fun hx hnone => ⟨hx, hnone⟩
  | cons o os ih =>
    exact fun hx hnone => ih
      (Scene.sound_of_reaches (Scene.reaches_perform hx o) (hx.asked o))
      (Session.requests_perform hnone o)

/-- **Requests are carried out once each, and raise no other**, whatever conversations are stored,
however the variables stand and whatever operations a game has asked for before. -/
theorem routedOnce_run (entries : List (String × Conversation)) (setting : Setting)
    (vars : Variables) (os : List Operation) (o : Operation) :
    ((Playback.new (.stocked entries) setting vars).run os).session.RoutedOnce o := by
  have hx : (Scene.of (.new (.stocked entries) setting vars)).Sound :=
    Scene.sound_new (Library.sound_stocked entries) setting vars
  obtain ⟨hsound, hnone⟩ := sound_and_settled_run os hx rfl
  exact Session.routedOnce hsound.library hnone o

end Playback

end Colloquy
