import Colloquy.Proofs.Playback.Routing

/-!
# Proofs/Playback/Refusal — a call that is refused changes nothing

A start, going on and a selection may be refused. Each is refused before anything is done: what a
performer answers with an error leaves it, and its stage, as they were but for notes
(`Player.start_of_error`, `Player.next_of_error`, `Player.select_of_error`,
`Background.start_of_error`). The one error that would come late is that of a choice which leads
nowhere, when its actions have been fired; no stored script has such a choice. No request is raised
then, so there is nothing to carry out either, and a session that refuses a call is spared by it
(`Playback.spared_of_refused`).
-/

namespace Colloquy

namespace Stage

theorem annotate_annotate (s : Stage) (ms ns : List Note) :
    (s.annotate ms).annotate ns = s.annotate (ms ++ ns) := by
  rw [annotate, annotate, annotate, observe, observe, observe, List.map_append, List.append_assoc]

end Stage

/-! ## Performers -/

namespace Player

variable {setting : Setting} {p : Player} {s : Stage} {e : PlaybackError}

/-- A player that does not start a conversation takes notes. -/
theorem start_of_error {name : String} {script : Conversation}
    (h : (p.start setting name script s).result = .error e) :
    (e = .alreadyActive ∨ e = .noStartingPoint name) ∧
      ∃ notes, p.start setting name script s = ⟨.error e, p, s.annotate notes⟩ := by
  unfold start at h ⊢
  by_cases hplaying : p.playing.isSome = true
  · rw [if_pos hplaying] at h ⊢
    cases h
    exact ⟨.inl rfl, _, rfl⟩
  · rw [if_neg hplaying] at h ⊢
    rcases hd : s.startingPoint script with ⟨_ | d, s'⟩
    · rw [hd] at h
      cases h
      obtain rfl : s.annotate (script.startingPoint s.vars).notes = s' := congrArg Prod.snd hd
      exact ⟨.inr rfl, _, congrArg (Turn.mk _ p) (s.annotate_annotate _ _)⟩
    · rw [hd] at h
      cases h

/-- A player that does not go on takes notes. -/
theorem next_of_error (h : (p.next setting s).result = .error e) :
    (e = .awaitingOption ∨ e = .stillRevealing) ∧
      ∃ notes, p.next setting s = ⟨.error e, p, s.annotate notes⟩ := by
  unfold next at h ⊢
  cases hq : p.playing with
  | none =>
    rw [hq] at h
    cases h
  | some q =>
    rw [hq] at h
    dsimp only at h ⊢
    cases hp : q.phase with
    | revealing r =>
      rw [hp] at h
      cases h
      exact ⟨.inr rfl, _, rfl⟩
    | choosing =>
      rw [hp] at h
      cases h
      exact ⟨.inl rfl, _, rfl⟩
    | settled =>
      rw [hp] at h
      cases h

/-- A player that does not make a choice takes notes, where scripts are sound: a choice that is
offered is never refused. -/
theorem select_of_error (hs : ∀ q, p.playing = some q → q.Sound) {index : Nat}
    (h : (p.select setting index s).result = .error e) :
    (e = .noOptions ∨ ∃ count, e = .optionOutOfRange index count) ∧
      ∃ notes, p.select setting index s = ⟨.error e, p, s.annotate notes⟩ := by
  cases hq : p.playing with
  | none =>
    unfold select at h
    rw [hq] at h
    cases h
  | some q =>
    -- an error means that there was nothing to choose
    have hcue : ¬ (p.cueFor (.select index)).isSome = true := fun hcue => by
      rw [(Lead.result_select_eq_ok_iff hq (hs q hq)).2 hcue] at h
      cases h
    unfold cueFor at hcue
    unfold select at h ⊢
    rw [hq] at h hcue ⊢
    dsimp only at h hcue ⊢
    split
    case isTrue hp =>
      rw [if_pos hp] at h hcue
      cases hc : q.dialogue.choices[index]? with
      | none =>
        rw [hc] at h
        cases h
        exact ⟨.inr ⟨_, rfl⟩, _, rfl⟩
      | some c =>
        rw [hc] at hcue
        exact absurd rfl hcue
    case isFalse hp =>
      rw [if_neg hp] at h
      cases h
      exact ⟨.inl rfl, _, rfl⟩

end Player

/-- A background conversation that does not start has no dialogue to start with, and takes notes. -/
theorem Background.start_of_error {setting : Setting} {id : Nat} {name : String}
    {script : Conversation} {s : Stage} {e : PlaybackError}
    (h : (Background.start setting id name script s).1 = .error e) :
    e = .noStartingPoint name ∧
      ∃ notes, Background.start setting id name script s = (.error e, s.annotate notes) := by
  unfold Background.start at h ⊢
  rcases hd : s.startingPoint script with ⟨_ | d, s'⟩
  · rw [hd] at h
    cases h
    obtain rfl : s.annotate (script.startingPoint s.vars).notes = s' := congrArg Prod.snd hd
    exact ⟨rfl, _, congrArg (Prod.mk _) (s.annotate_annotate _ _)⟩
  · rw [hd] at h
    cases h

/-! ## A session -/

namespace Session

/-- A call that may be refused. A game may ask for a start on either text box. -/
inductive Appeal
  | start (name : String)
  | startBackground (name : String)
  | next
  | select (index : Nat)

/-- The answer to a call. A script that belongs on the other text box is started there, so that both
starts are one. -/
def appeal (x : Session) : Appeal → Answer Unit
  | .start name | .startBackground name =>
    ⟨(x.start name).result.map fun _ => (), (x.start name).session⟩
  | .next => x.next
  | .select index => x.select index

/-- A session that refused a call with an error is left as it was, but for notes and for an id that
may have been used up. -/
structure Spared (x : Session) (e : PlaybackError) (y : Session) : Prop where
  library : y.library = x.library
  setting : y.setting = x.setting
  player : y.player = x.player
  background : y.background = x.background
  vars : y.stage.vars = x.stage.vars
  requests : y.stage.requests = x.stage.requests
  events : y.stage.events = x.stage.events
  /-- Nothing is shown, delivered, announced or logged by a script: all that is new is notes. -/
  trace : ∃ notes : List Note, y.stage.trace = x.stage.trace ++ notes.map .note
  nextId : y.nextId = x.nextId ∨ y.nextId = x.nextId + 1 ∧ ∃ name, e = .noStartingPoint name

variable {x : Session} {e : PlaybackError}

theorem spared_annotate (x : Session) (e : PlaybackError) (notes : List Note) :
    x.Spared e { x with stage := x.stage.annotate notes } :=
  ⟨rfl, rfl, rfl, rfl, rfl, rfl, rfl, ⟨notes, rfl⟩, .inl rfl⟩

/-- A conversation that is not launched leaves the session as it was. -/
theorem spared_launch {name : String} (h : (x.launch name).result = .error e) :
    (e = .conversationNotFound name ∨ e = .alreadyActive ∨ e = .noStartingPoint name) ∧
      x.Spared e (x.launch name).session := by
  cases hl : x.library.get? name with
  | none =>
    rw [launch_of_missing hl] at h ⊢
    cases h
    exact ⟨.inl rfl, x.spared_annotate _ _⟩
  | some script =>
    rw [launch_of_stored hl] at h ⊢
    split
    case isTrue hb =>
      rw [if_pos hb] at h
      unfold startBackground at h ⊢
      dsimp only at h ⊢
      cases hr : (Background.start x.setting x.nextId name script x.stage).1 with
      | ok b =>
        rw [hr] at h
        cases h
      | error e' =>
        rw [hr] at h
        cases h
        obtain ⟨rfl, notes, hstart⟩ := Background.start_of_error hr
        rw [hstart]
        exact ⟨.inr (.inr rfl),
          rfl, rfl, rfl, rfl, rfl, rfl, rfl, ⟨notes, rfl⟩, .inr ⟨rfl, name, rfl⟩⟩
    case isFalse hb =>
      rw [if_neg hb] at h
      unfold startMain at h ⊢
      dsimp only at h ⊢
      cases hr : (x.player.start x.setting name script x.stage).result with
      | ok u =>
        rw [hr] at h
        cases h
      | error e' =>
        rw [hr] at h
        cases h
        obtain ⟨he, notes, hstart⟩ := Player.start_of_error hr
        rw [hstart]
        exact ⟨.inr he, x.spared_annotate e notes⟩

/-- The answer to a start is what comes of launching the conversation. -/
theorem result_launch_of_start {name : String}
    (h : (x.appeal (.start name)).result = .error e) : (x.launch name).result = .error e := by
  unfold appeal start Session.settle at h
  dsimp only at h
  cases hr : (x.launch name).result with
  | ok c =>
    rw [hr] at h
    cases h
  | error e' =>
    rw [hr] at h
    cases h
    rfl

/-- An answer of the player's that is an error leaves the session as it was. -/
theorem spared_ofTurn {t : Turn}
    (h : ∃ notes, t = ⟨.error e, x.player, x.stage.annotate notes⟩) :
    x.Spared e (x.ofTurn t).session := by
  obtain ⟨notes, rfl⟩ := h
  exact x.spared_annotate e notes

/-- Where no request was pending, there is nothing to carry out for a session that was spared. -/
theorem Spared.settle {α : Type} {a : Answer α} (h : x.Spared e a.session)
    (hx : x.stage.requests = []) : x.Spared e (settle a).session := by
  have hnone : a.session.stage.requests = [] := h.requests.trans hx
  rw [Session.settle, route, ← withQueue_self hnone, routeWithin_nil, withQueue_self hnone]
  exact h

/-- **A session that refuses a call is spared by it**, where performers can rely on what they rely
on and no request is pending. -/
theorem spared_appeal {heard : List Event} (hx : (Scene.of ⟨x, heard⟩).Sound)
    (hnone : x.stage.requests = []) {u : Appeal} (h : (x.appeal u).result = .error e) :
    x.Spared e (x.appeal u).session := by
  cases u with
  | start name | startBackground name =>
    exact (spared_launch (result_launch_of_start h)).2.settle hnone
  | next => exact (spared_ofTurn (Player.next_of_error h).2).settle hnone
  | select index => exact (spared_ofTurn (Player.select_of_error hx.playing h).2).settle hnone

end Session

namespace Playback

/-- **A session that refuses a start, going on or a selection is spared by it**, whatever
conversations are stored, however the variables stand and whatever operations a game has asked for
before. -/
theorem spared_of_refused (entries : List (String × Conversation)) (setting : Setting)
    (vars : Variables) (os : List Operation) :
    let x := ((Playback.new (.stocked entries) setting vars).run os).session
    ∀ {u : Session.Appeal} {e : PlaybackError}, (x.appeal u).result = .error e →
      x.Spared e (x.appeal u).session := by
  intro x u e h
  have hx : (Scene.of (.new (.stocked entries) setting vars)).Sound :=
    Scene.sound_new (Library.sound_stocked entries) setting vars
  obtain ⟨hsound, hnone⟩ := sound_and_settled_run os hx rfl
  exact Session.spared_appeal hsound hnone h

/-- While one conversation is performed, one that starts nowhere is asked for in the background: an
id is used up, and that is all. -/
theorem spared_of_refused_murmur :
    let talk : Conversation :=
      { dialogues := [{ id := 0, startingPoint := true, sentences := ["Well?"] }] }
    let murmur : Conversation :=
      { dialogues := [{ id := 0, sentences := ["Hm."] }], background := true }
    let x := ((Playback.new (.stocked [("talk", talk), ("murmur", murmur)])
      ⟨{}, default, fun _ => false⟩ .empty).run [.start "talk"]).session
    x.player.playing.isSome = true ∧
      (x.appeal (.startBackground "murmur")).session.nextId = x.nextId + 1 ∧
      x.Spared (.noStartingPoint "murmur") (x.appeal (.startBackground "murmur")).session :=
  ⟨by decide +kernel, by decide +kernel, spared_of_refused _ _ _ _ (by decide +kernel)⟩

end Playback

end Colloquy
