import Colloquy.Proofs.Playback.Requests
import Colloquy.Proofs.Playback.Utterance

/-!
# Proofs/Playback/Propriety — all that a playback utters is proper

Whatever operations a game asks for, what a session observes, reports and leaves is proper, as what
its performers utter is (`Session.Apt`, `Playback.Apt`). A request is proper when it is raised, so
that carrying it out is. So nothing blank is handed on to anyone, by whichever way it came from a
script (`Playback.substantial_run`).
-/

namespace Colloquy

/-! ## What a session does -/

namespace Session

/-- Scripts are sound, performers are apt, and all has been proper. -/
structure Apt (x : Session) : Prop where
  library : x.library.Sound
  player : x.player.Apt
  background : ∀ b ∈ x.background, b.Apt
  stage : x.stage.Proper

variable {x : Session}

theorem Apt.withPlayer (hx : x.Apt) {y : Player × Stage} (hy : Player.Proper y) :
    (x.withPlayer y).Apt :=
  ⟨hx.library, hy.apt, hx.background, hy.stage⟩

theorem Apt.withStage (hx : x.Apt) {s : Stage} (hs : s.Proper) :
    Apt { x with stage := s } :=
  ⟨hx.library, hx.player, hx.background, hs⟩

theorem Apt.startBackground (hx : x.Apt) (name : String) {script : Conversation}
    (hc : script.Sound) : (x.startBackground name script).session.Apt := by
  obtain ⟨hstarted, hstage⟩ :=
    Background.start_proper x.setting x.nextId name hc hx.stage
  unfold Session.startBackground
  dsimp only
  cases hr : (Background.start x.setting x.nextId name script x.stage).1 with
  | error e => exact ⟨hx.library, hx.player, hx.background, hstage⟩
  | ok b =>
    dsimp only
    split
    · exact ⟨hx.library, hx.player, hx.background, hstage⟩
    · exact ⟨hx.library, hx.player, List.forall_mem_append.2
        ⟨hx.background, List.forall_mem_singleton.2 (hstarted b hr)⟩, hstage⟩

theorem Apt.launch (hx : x.Apt) (name : String) : (x.launch name).session.Apt := by
  cases h : x.library.get? name with
  | none =>
    rw [launch_of_missing h]
    exact hx.withStage (hx.stage.annotate (x.library.not_astray_retrieve name))
  | some script =>
    rw [launch_of_stored h]
    split
    · exact hx.startBackground name (hx.library name script h)
    · exact hx.withPlayer
        (Player.start_proper x.setting name (hx.library name script h) hx.player hx.stage)

theorem finishAll_proper (bs : List Background) :
    ∀ {s : Stage}, (∀ b ∈ bs, b.Apt) → s.Proper → (finishAll bs s).Proper := by
  induction bs with
  | nil => exact fun _ hs => hs
  | cons b bs ih =>
    intro s hbs hs
    obtain ⟨hb, hbs⟩ := List.forall_mem_cons.1 hbs
    exact ih hbs (Background.finish_proper hb hs).stage

theorem Apt.stop (hx : x.Apt) : x.stop.Apt :=
  hx.withPlayer (Player.stop_proper hx.player hx.stage)

theorem Apt.closeBackground (hx : x.Apt) : x.closeBackground.Apt :=
  ⟨hx.library, hx.player, List.forall_mem_nil _,
    finishAll_proper x.background hx.background hx.stage⟩

/-- Carrying out a request that has the name that it needs is proper. -/
theorem Apt.carryOut (hx : x.Apt) {r : Request} (hr : r.Filled) : (x.carryOut r).Apt := by
  cases r with
  | closeConversation => exact hx.stop
  | changeTheme theme => exact hx.withPlayer (Player.changeTheme_proper hx.player hx.stage hr)
  | startBackgroundConversation name => exact hx.launch name
  | closeBackgroundConversations => exact hx.closeBackground

/-- So is carrying out all that were left. -/
theorem Apt.routeWithin (limit : Nat) :
    ∀ {x : Session}, x.Apt → (x.routeWithin limit).Apt := by
  induction limit with
  | zero =>
    intro x hx
    unfold Session.routeWithin
    split
    · exact hx
    · have hnone : Stage.Proper { x.stage with requests := [] } :=
        ⟨hx.stage.trace, List.forall_mem_nil _, hx.stage.events⟩
      exact hx.withStage (hnone.annotate (Note.warning_not_astray ⟨_, rfl, by decide⟩))
    · contradiction
  | succ limit ih =>
    intro x hx
    unfold Session.routeWithin
    split
    · exact hx
    · contradiction
    · rename_i r rest limit' h hlimit
      cases hlimit
      obtain ⟨hr, hrest⟩ := List.forall_mem_cons.1 (h ▸ hx.stage.requests)
      have htaken : Apt { x with stage := { x.stage with requests := rest } } :=
        hx.withStage ⟨hx.stage.trace, hrest, hx.stage.events⟩
      exact ih (htaken.carryOut hr)

theorem tickAll_proper (setting : Setting) (dt : Single) (bs : List Background) :
    ∀ {s : Stage}, (∀ b ∈ bs, b.Apt) → s.Proper →
      (∀ b ∈ (tickAll setting dt bs s).1, b.Apt) ∧ (tickAll setting dt bs s).2.Proper := by
  induction bs with
  | nil => exact fun _ hs => ⟨List.forall_mem_nil _, hs⟩
  | cons b bs ih =>
    intro s hbs hs
    obtain ⟨hb, hbs⟩ := List.forall_mem_cons.1 hbs
    obtain ⟨hticked, hstage⟩ := Background.tick_proper setting dt hb hs
    obtain ⟨hrest, hlast⟩ := ih hbs hstage
    rw [tickAll]
    refine ⟨?_, hlast⟩
    dsimp only
    split
    · exact hrest
    · exact List.forall_mem_cons.2 ⟨hticked, hrest⟩

theorem Apt.load (hx : x.Apt) (name text : String) : (x.load name text).2.Apt := by
  have hstage := hx.stage.annotate (x.library.apart_load name text)
  unfold Session.load
  dsimp only
  split
  · exact ⟨hx.library.load ‹_›, hx.player, hx.background, hstage⟩
  · exact hx.withStage hstage

/-- **Whatever an operation does is proper**, before requests are carried out and after. -/
theorem Apt.attempt (hx : x.Apt) (o : Operation) : (x.attempt o).Apt := by
  cases o with
  | start name => exact hx.launch name
  | next => exact hx.withPlayer (Player.next_proper x.setting hx.player hx.stage)
  | select index => exact hx.withPlayer (Player.select_proper x.setting index hx.player hx.stage)
  | stop => exact hx.stop
  | closeBackground => exact hx.closeBackground
  | tick dt =>
    obtain ⟨hplayer, hstage⟩ := Player.tick_proper x.setting dt hx.player hx.stage
    obtain ⟨hbackground, hlast⟩ := tickAll_proper x.setting dt x.background hx.background hstage
    exact ⟨hx.library, hplayer, hbackground, hlast⟩
  | load name text => exact hx.load name text
  | vary v => exact hx.withStage (hx.stage.vary v)
  | drain => exact hx.withStage ⟨hx.stage.trace, hx.stage.requests, List.forall_mem_nil _⟩

theorem Apt.perform (hx : x.Apt) (o : Operation) : (x.perform o).Apt := by
  cases o with
  | start name => exact (hx.attempt (.start name)).routeWithin requestLimit
  | next => exact (hx.attempt .next).routeWithin requestLimit
  | select index => exact (hx.attempt (.select index)).routeWithin requestLimit
  | tick dt => exact (hx.attempt (.tick dt)).routeWithin requestLimit
  | stop => exact hx.attempt .stop
  | closeBackground => exact hx.attempt .closeBackground
  | load name text => exact hx.attempt (.load name text)
  | vary v => exact hx.attempt (.vary v)
  | drain => exact hx.attempt .drain

end Session

namespace Playback

/-- The session is apt, and the events that were taken from it were proper as well. -/
structure Apt (x : Playback) : Prop where
  session : x.session.Apt
  heard : ∀ e ∈ x.heard, e.Filled

/-- **All that a playback utters is proper**, whatever operations a game asks for. -/
theorem Apt.run (os : List Operation) : ∀ {x : Playback}, x.Apt → (x.run os).Apt := by
  induction os with
  | nil => exact fun hx => hx
  | cons o os ih =>
    intro x hx
    refine ih (x := x.perform o) ⟨hx.session.perform o, ?_⟩
    cases o with
    | drain => exact List.forall_mem_append.2 ⟨hx.heard, hx.session.stage.events⟩
    | _ => exact hx.heard

theorem apt_new {library : Library} (hl : library.Sound) (setting : Setting) (vars : Variables) :
    (Playback.new library setting vars).Apt :=
  ⟨⟨hl, (fun _ hq => by cases hq), List.forall_mem_nil _, Stage.ofVariables_proper vars⟩,
    List.forall_mem_nil _⟩

end Playback

/-! ## Nothing blank is handed on -/

/-- The report of an answer names a theme where the request does. -/
theorem Request.filled_of_answer? {name : String} {r : Request} {e : Event}
    (h : r.answer? name = some e) (he : e.Filled) : r.Filled := by
  cases r with
  | closeConversation | closeBackgroundConversations => trivial
  | changeTheme theme =>
    cases h
    exact he
  | startBackgroundConversation name => cases h

/-- What performers raise has the names that it needs, as what they answered and what they left
does. -/
theorem Session.Accounted.filled {x : Session} {u : Prompt} {parts : List Part}
    (h : x.Accounted u parts) (hx : (x.attempt u.operation).stage.Proper) :
    ∀ t ∈ parts, ∀ r ∈ t.raised x.setting.accepts, r.Filled := by
  intro t ht r hr
  obtain ⟨es, hes, hanswers⟩ := h.answers
  rcases t.answered_or_left hr with ⟨e, ha, he⟩ | hleft
  · have hmem : e ∈ (x.attempt u.operation).stage.events := by
      rw [hes]
      exact List.mem_append_right _ (hanswers.subset (List.mem_flatMap.2 ⟨t, ht, he⟩))
    unfold Part.answer? at ha
    split at ha
    · exact Request.filled_of_answer? ha (hx.events e hmem)
    · cases ha
  · refine hx.requests r ?_
    rw [h.requests]
    exact List.mem_flatMap.2 ⟨t, ht, hleft⟩

/-- Nothing blank is handed on in a playback, to whomever. -/
structure Playback.Substantial (x : Playback) : Prop where
  deliver : ∀ target message accepted, .deliver target message accepted ∈ x.trace →
    ¬ Text.IsBlank target ∧ ¬ Text.IsBlank message
  /-- Neither is a theme that is put on blank, nor one that is reported to be. -/
  theme : ∀ name, .theme name ∈ x.trace ∨ .themeChanged name ∈ x.events → ¬ Text.IsBlank name
  log : ∀ severity text, .log severity text ∈ x.trace → ¬ Text.IsBlank text
  /-- Requests that are left for the session in whatever operation comes next have the names that
  they need. -/
  left : ∀ o, ∀ r ∈ (x.session.attempt o).stage.requests, r.Filled
  /-- So do all that performers raise in it, be they left or answered on the spot. -/
  raised : ∀ u, ∃ parts, x.session.Accounted u parts ∧
    ∀ t ∈ parts, ∀ r ∈ t.raised x.session.setting.accepts, r.Filled

namespace Playback

/-- **Nothing blank is handed on**, whatever conversations are stored, however the variables stand
and whatever operations a game asks for. -/
theorem substantial_run (entries : List (String × Conversation)) (setting : Setting)
    (vars : Variables) (os : List Operation) :
    ((Playback.new (.stocked entries) setting vars).run os).Substantial := by
  have hl := Library.sound_stocked entries
  have hapt := (apt_new hl setting vars).run os
  have hx : (Scene.of (.new (.stocked entries) setting vars)).Sound :=
    Scene.sound_new hl setting vars
  obtain ⟨hsound, hnone⟩ := sound_and_settled_run os hx rfl
  constructor
  case deliver => exact fun target message accepted h => hapt.session.stage.trace _ h
  case theme =>
    rintro name (h | h)
    · exact hapt.session.stage.trace _ h
    · exact (List.mem_append.1 h).elim (hapt.heard _) (hapt.session.stage.events _)
  case log => exact fun severity text h => hapt.session.stage.trace _ h
  case left => exact fun o => (hapt.session.attempt o).stage.requests
  case raised =>
    intro u
    obtain ⟨parts, hparts⟩ :=
      Session.exists_accounted hnone hsound.library hsound.playing hsound.background u
    exact ⟨parts, hparts, hparts.filled (hapt.session.attempt u.operation).stage⟩

end Playback

end Colloquy
