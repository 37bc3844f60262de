import Colloquy.Proofs.Playback.Propriety
import Colloquy.Proofs.Playback.Refusal
import Colloquy.Proofs.Script.Stock

/-!
# Proofs/Playback/Guidance — no link and no listed action of a stored script leads astray

The check looks ids and names up in the lists of a script; a performer takes the first dialogue of
an id and the first action of a name. In a script that passes the check a performer so finds
whatever it is sent to (`Conversation.guides_of_audit`), and making a script ready, or loading
another in its place while it is performed, does not change that: every script at hand in a session
passes the check (`Scene.Step.atHand`). So nobody is ever told that a dialogue is not there, neither
by an answer nor in the log (`Playback.guided_run`).
-/

namespace Colloquy

/-! ## Scripts that pass the check -/

/-- Wherever a script sends a performer, there is a dialogue, and whatever actions it lists are
there. -/
structure Conversation.Guides (c : Conversation) : Prop where
  next : ∀ d ∈ c.dialogues, ∀ id, d.next? = some id → ∃ e, c.dialogue? id = some e
  choice : ∀ d ∈ c.dialogues, ∀ choice ∈ d.choices, ∀ id, choice.next? = some id →
    ∃ e, c.dialogue? id = some e
  /-- A listed action is of a known type, and fails only as it lacks something of its own or as
  nobody takes its message. -/
  action : ∀ name, c.Lists name → ∃ a e, c.action? name = some a ∧ a.effect? = some e ∧
    ∀ (accepts : String → Bool) (cause : ActionError),
      (Action.performNamed accepts c.actions name .nothing).result = .error cause →
        cause = .missingMessage name e ∨ cause = .missingTarget name e ∨
          ∃ target, cause = .undelivered target ∧ accepts target = false

namespace Conversation

variable {c : Conversation}

/-- What a well-formed script lists is declared. -/
theorem WellFormed.declares (h : c.WellFormed) {name : String} (hname : c.Lists name) :
    c.Declares name := by
  obtain ⟨d, hd, hname | ⟨choice, hchoice, hname⟩⟩ := hname
  · exact (h.dialogues d hd).declares name hname
  · exact ((h.dialogues d hd).choices choice hchoice).declares name hname

theorem exists_action?_of_declares {name : String} (h : c.Declares name) :
    ∃ a ∈ c.actions, c.action? name = some a ∧ a.name = name := by
  obtain ⟨a, ha⟩ := Option.isSome_iff_exists.1 (Clean.isSome_action?_of_declares h)
  exact ⟨a, List.mem_of_find?_eq_some ha, ha, by simpa using List.find?_some ha⟩

/-- **A script that passes the check guides whoever performs it.** -/
theorem guides_of_audit (h : c.audit.result = .ok ()) : c.Guides where
  next d hd id hid := by
    refine (sound_of_audit h).links d hd id (List.mem_append_left _ ?_)
    rw [hid]
    exact List.mem_singleton_self id
  choice d hd choice hchoice id hid :=
    (sound_of_audit h).links d hd id
      (List.mem_append_right _ (List.mem_filterMap.2 ⟨choice, hchoice, hid⟩))
  action name hname := by
    have hwell := (audit_accepts_iff c).1 h
    obtain ⟨a, hmem, ha, rfl⟩ := exists_action?_of_declares (hwell.declares hname)
    obtain ⟨e, he⟩ := hwell.known a hmem
    refine ⟨a, e, ha, he, fun accepts cause hcause => ?_⟩
    have hperform : Action.performNamed accepts c.actions a.name .nothing = a.perform accepts := by
      unfold Action.performNamed
      rw [show c.actions.find? (·.name == a.name) = some a from ha]
      rfl
    rw [hperform, Action.result_perform_eq_error_iff] at hcause
    rcases hcause with hlack | ⟨-, hrefused, hundelivered⟩
    · rw [Action.effect_of_known (Action.knownEffect_eq_ok_iff.2 he)] at hlack
      split_ifs at hlack
      · cases hlack
        exact .inl rfl
      · cases hlack
        exact .inr (.inl rfl)
    · exact .inr (.inr ⟨_, hundelivered.symm, hrefused⟩)

end Conversation

/-! ## Scripts at hand -/

/-- A script is at hand in a session: it is stored, or it is being performed, be it stored still or
not. -/
inductive Session.AtHand (x : Session) (c : Conversation) : Prop
  | stored {name : String} (h : x.library.get? name = some c)
  | played {q : Performance} (h : x.player.playing = some q) (hc : q.script = c)
  | background {b : Background} (h : b ∈ x.background) (hc : b.script = c)

/-- What is done in the main performance is done with the script that was performed before. -/
theorem Lead.Act.exists_script {setting : Setting} {o : Operation} {l l' : Lead}
    {m? : Option Moment} (h : Lead.Act setting o l m? l') {q' : Performance}
    (hq' : l'.player.playing = some q') :
    ∃ q, l.player.playing = some q ∧ q.script = q'.script := by
  cases h with
  | say hq hp ho =>
    rw [Lead.of, Player.playing_say] at hq'
    cases hq'
    exact ⟨_, hq, rfl⟩
  | tag hq hp hstep hd hf =>
    rw [Lead.of, Player.playing_followUp hf] at hq'
    cases hq'
    exact ⟨_, hq, rfl⟩
  | elapse hq | letter hq | lastTag hq | whole hq | offer hq | link hq | follow hq =>
    cases hq'
    exact ⟨_, hq, rfl⟩
  | choose | conclude | fire | lastAction | note | obey => exact ⟨_, hq', rfl⟩
  | request hq hp hf hc =>
    rw [Lead.of, Player.playing_answer hc] at hq'
    exact ⟨_, hq', rfl⟩
  | finish hq =>
    rw [Lead.of, Player.stop_of_playing hq] at hq'
    cases hq'

namespace Scene

/-- **A script that is at hand after a step was so before**, unless it has passed the check then. -/
theorem Step.atHand {o : Operation} {x y : Scene} {m? : Option Mark} (h : Step o x m? y)
    {c : Conversation} (hc : y.session.AtHand c) :
    x.session.AtHand c ∨ c.audit.result = .ok () := by
  cases h with
  | lead h =>
    rcases hc with hl | ⟨hq, rfl⟩ | ⟨hb, rfl⟩
    · exact .inl (.stored hl)
    · obtain ⟨q, hq, hscript⟩ := h.exists_script hq
      exact .inl (.played hq hscript)
    · exact .inl (.background hb rfl)
  | @ambient before after b _ a hb h =>
    rcases hc with hl | ⟨hq, rfl⟩ | ⟨hb', rfl⟩
    · exact .inl (.stored hl)
    · exact .inl (.played hq rfl)
    · refine .inl ?_
      have hmem : ∀ {b'}, b' ∈ before ∨ b' = b ∨ b' ∈ after → b' ∈ x.session.background := by
        intro b' h
        rw [hb]
        simpa using h
      rcases List.mem_append.1 hb' with hb' | hb'
      · exact .background (hmem (.inl hb')) rfl
      · rcases List.mem_cons.1 hb' with rfl | hb'
        · exact .background (hmem (.inr (.inl rfl))) h.raises.script.symm
        · exact .background (hmem (.inr (.inr hb'))) rfl
  | begin hl hb hp hcue hd =>
    rcases hc with hl' | ⟨hq, rfl⟩ | ⟨hb, rfl⟩
    · exact .inl (.stored hl')
    · cases hq
      exact .inl (.stored hl)
    · exact .inl (.background hb rfl)
  | @beginBackground name script d hl hb hd =>
    rcases hc with hl' | ⟨hq, rfl⟩ | ⟨hb', rfl⟩
    · exact .inl (.stored hl')
    · exact .inl (.played hq rfl)
    · obtain ⟨anchor, moved, hv⟩ := x.newcomer_fst name script d
      rcases List.mem_append.1 hb' with hb' | hb'
      · exact .inl (.background hb' rfl)
      · rw [List.mem_singleton.1 hb', hv]
        exact .inl (.stored hl)
  | @forget before after b hb hp =>
    rcases hc with hl | ⟨hq, rfl⟩ | ⟨hb', rfl⟩
    · exact .inl (.stored hl)
    · exact .inl (.played hq rfl)
    · have hsub : (before ++ after).Sublist x.session.background := by
        rw [hb]
        exact List.Sublist.append_left (List.sublist_cons_self ..) _
      exact .inl (.background (hsub.subset hb') rfl)
  | @load name text library ho hl =>
    rcases hc with hl' | ⟨hq, rfl⟩ | ⟨hb, rfl⟩
    · obtain ⟨c', -, hinsert⟩ := Library.result_load_eq_ok_iff.1 hl
      have hget : library.get? _ = some c := hl'
      rw [Library.get?_of_insert hinsert] at hget
      split at hget
      · cases hget
        refine .inr ?_
        rw [c'.audit_prepare]
        exact (Library.result_insert_eq_ok_iff.1 hinsert).2.1
      · exact .inl (.stored hget)
    · exact .inl (.played hq rfl)
    · exact .inl (.background hb rfl)
  | skipId | take | theme | drop | vary | drain =>
    rcases hc with hl | ⟨hq, rfl⟩ | ⟨hb, rfl⟩
    · exact .inl (.stored hl)
    · exact .inl (.played hq rfl)
    · exact .inl (.background hb rfl)

/-- Every script at hand has passed the check. -/
def Vetted (x : Scene) : Prop := ∀ c, x.session.AtHand c → c.audit.result = .ok ()

theorem vetted_of_reaches {o : Operation} {x y : Scene} (h : Reaches (Step o) x y)
    (hx : x.Vetted) : y.Vetted := by
  obtain ⟨ms, h⟩ := h
  refine h.keeps (P := Vetted) (fun x m y h hx c hc => ?_) hx
  exact (h.atHand hc).elim (hx c) id

end Scene

namespace Playback

theorem vetted_run (os : List Operation) :
    ∀ {x : Playback}, (Scene.of x).Sound → (Scene.of x).Vetted → (Scene.of (x.run os)).Vetted := by
  induction os with
  | nil => exact fun _ hvetted => hvetted
  | cons o os ih =>
    intro x hx hvetted
    have hreaches := Scene.reaches_perform hx o
    have hasked : (Scene.asked x o).Vetted := hvetted
    exact ih (Scene.sound_of_reaches hreaches (hx.asked o))
      (Scene.vetted_of_reaches hreaches hasked)

end Playback

/-! ## Answers -/

namespace Session

variable {x : Session} {id : Int32}

/-- No answer is that a dialogue is not there: a call is refused for other reasons. -/
theorem result_appeal_ne {heard : List Event} (hx : (Scene.of ⟨x, heard⟩).Sound) (u : Appeal) :
    (x.appeal u).result ≠ .error (.dialogueNotFound id) := by
  intro h
  cases u with
  | start name | startBackground name =>
    obtain ⟨he | he | he, -⟩ := spared_launch (result_launch_of_start h) <;> cases he
  | next => obtain ⟨he | he, -⟩ := Player.next_of_error h <;> cases he
  | select index => obtain ⟨he | ⟨_, he⟩, -⟩ := Player.select_of_error hx.playing h <;> cases he

/-- Nobody is sent to a dialogue that is not there, or told so, and whatever actions a script lists
are there. -/
structure Guided (x : Session) : Prop where
  stored : ∀ name c, x.library.get? name = some c → c.Guides
  playing : ∀ q, x.player.playing = some q → q.script.Guides ∧ q.dialogue ∈ q.script.dialogues
  background : ∀ b ∈ x.background, b.script.Guides ∧ b.dialogue ∈ b.script.dialogues
  /-- No call is answered so. -/
  answered : ∀ u id, (x.appeal u).result ≠ .error (.dialogueNotFound id)
  /-- There is no note of it either. -/
  noted : ∀ id, .note (.failure (PlaybackError.dialogueNotFound id).message) ∉ x.stage.trace

end Session

namespace Playback

/-- **No link and no listed action leads astray**, whatever conversations are stored, however the
variables stand and whatever operations a game asks for, other conversations of the same names
loaded meanwhile included. -/
theorem guided_run (entries : List (String × Conversation)) (setting : Setting)
    (vars : Variables) (os : List Operation) :
    ((Playback.new (.stocked entries) setting vars).run os).session.Guided := by
  have hl := Library.sound_stocked entries
  have hx : (Scene.of (.new (.stocked entries) setting vars)).Sound :=
    Scene.sound_new hl setting vars
  have hvetted : (Scene.of (.new (.stocked entries) setting vars)).Vetted := by
    rintro c (hc | ⟨hq, -⟩ | ⟨hb, -⟩)
    · have hkept := Library.kept_afterAll (entries.map fun e => .insert e.1 e.2)
      rw [← Library.stocked_eq_afterAll] at hkept
      exact (hkept _ c hc).2.accepted
    · cases hq
    · cases hb
  obtain ⟨hsound, -⟩ := sound_and_settled_run os hx rfl
  have hguides := fun c hc => Conversation.guides_of_audit (vetted_run os hx hvetted c hc)
  constructor
  case stored => exact fun name c hc => hguides c (.stored hc)
  case playing => exact fun q hq => ⟨hguides _ (.played hq rfl), (hsound.playing q hq).dialogue⟩
  case background =>
    exact fun b hb => ⟨hguides _ (.background hb rfl), (hsound.background b hb).dialogue⟩
  case answered => exact fun u id => Session.result_appeal_ne hsound u
  case noted =>
    intro id hmem
    exact ((apt_new hl setting vars).run os).session.stage.trace _ hmem ⟨id, rfl⟩

end Playback

end Colloquy
