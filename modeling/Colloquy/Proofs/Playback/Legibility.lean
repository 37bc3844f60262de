import Colloquy.Proofs.Playback.Afresh

/-!
# Proofs/Playback/Legibility — what is written on a slate fits together

No player reveals a sentence without a conversation, or is idle within one: there is no way to write
such a `Player` down. On a slate any two fields may stand side by side, and each is written and
wiped off for itself, so that it takes a proof that they fit together (`Slate.Legible`). They do,
whatever a slate is asked for and with whatever scripts (`Slate.legible_meetAll`). A slate shows a
player, and a player is in the midst of what it says it is (`Player.Settled`); each call leaves both
so (`Slate.Tracks.respond`), and what does not fit cannot be on a slate that shows such a player.
-/

namespace Colloquy

open Markup

/-- A call is what comes of it, without the result. -/
theorem Player.call_eq_respond (setting : Setting) (p : Player) (s : Stage) (c : PlayerCall) :
    p.call setting s c = ((p.respond setting c s).performer, (p.respond setting c s).stage) := by
  cases c <;> rfl

namespace Slate

/-! ## What fits together -/

/-- A sentence is the one that the slate is at: it stands at the index that is written down, in the
dialogue that is, and its text is the one that is. -/
structure Says (c : Slate) (s : Sentence) : Prop where
  text : c.text = s.text
  stands : ∃ d i raw vars, c.dialogue? = some d ∧ c.sentenceIndex? = some i ∧
    d.sentences[i]? = some raw ∧ s = (Reading.ofText vars raw).sentence

/-- What is written on a slate and what was shown fit together. -/
structure Legible (c : Slate) (t : Trace) : Prop where
  /-- It is idle if no script is held, and only then. -/
  idle_iff : c.activity = .idle ↔ c.script? = none
  /-- Of a conversation that has ended, neither name nor sentence is left. -/
  of_idle : c.activity = .idle →
    c.name = "" ∧ c.reveal? = none ∧ c.sentenceIndex? = none ∧ c.text = ""
  /-- As long as a script is held, the dialogue is one of it. -/
  dialogue : ∀ script, c.script? = some script →
    ∃ (i : Nat) (d : Dialogue), c.dialogue? = some d ∧ script.dialogues[i]? = some d
  /-- What is revealed is the sentence that the slate is at. It was laid out last, and so much of it
  was revealed as the reveal says. -/
  of_reveal : ∀ r, c.reveal? = some r → c.activity = .active ∧
    ∃ s, c.Says s ∧ r.IsOf s ∧ t.LastShows s r.revealed false
  /-- Where nothing is revealed, the sentence that the slate is at is whole. -/
  of_active : c.activity = .active → c.reveal? = none →
    ∃ s, c.Says s ∧ t.LastShows s s.size true
  /-- Where choices are offered, there are some, and nothing is revealed. -/
  of_choosing : c.activity = .choosing →
    c.reveal? = none ∧ ∃ d, c.dialogue? = some d ∧ d.choices ≠ []

variable {c : Slate} {p : Player} {q : Performance} {t : Trace}

/-! ## What a slate shows can be read off it -/

theorem Rests.legible (h : c.Rests) : c.Legible t where
  idle_iff := iff_of_true h.activity h.script
  of_idle _ := ⟨h.name, h.reveal, h.sentenceIndex, h.text⟩
  dialogue script hscript := by
    rw [h.script] at hscript
    cases hscript
  of_reveal r hr := by
    rw [h.reveal] at hr
    cases hr
  of_active ha := by
    rw [h.activity] at ha
    cases ha
  of_choosing ha := by
    rw [h.activity] at ha
    cases ha

theorem Holds.says {phase : Phase} (h : c.Holds q phase) (hq : q.Says) : c.Says q.sentence := by
  obtain ⟨i, raw, vars, hi, hraw, hsentence⟩ := hq
  exact ⟨h.text, _, i, raw, vars, h.dialogue, h.sentenceIndex.trans hi, hraw, hsentence⟩

/-- A performance that is in the midst of what it says it is leaves nothing on the slate that does
not fit. -/
theorem Holds.legible (h : c.Holds q q.phase) (hd : q.dialogue ∈ q.script.dialogues)
    (hq : q.Settled t) : c.Legible t where
  idle_iff := iff_of_false h.activity_ne (by simp [h.script])
  of_idle ha := absurd ha h.activity_ne
  dialogue script hscript := by
    rw [h.script] at hscript
    cases hscript
    obtain ⟨i, hi⟩ := List.mem_iff_getElem?.1 hd
    exact ⟨i, _, h.dialogue, hi⟩
  of_reveal r hr := by
    have ha := h.activity
    rw [h.reveal, Performance.reveal?] at hr
    unfold Performance.Settled at hq
    cases hp : q.phase with
    | revealing r' =>
      rw [hp] at ha hr hq
      cases hr
      exact ⟨ha, _, h.says hq.1, hq.2⟩
    | _ =>
      rw [hp] at hr
      cases hr
  of_active ha hr := by
    rw [h.activity] at ha
    rw [h.reveal, Performance.reveal?] at hr
    unfold Performance.Settled at hq
    cases hp : q.phase with
    | settled =>
      rw [hp] at hq
      exact ⟨_, h.says hq.1, hq.2⟩
    | revealing r =>
      rw [hp] at hr
      cases hr
    | choosing =>
      rw [hp] at ha
      cases ha
  of_choosing ha := by
    have hr := h.reveal
    rw [h.activity] at ha
    unfold Performance.Settled at hq
    cases hp : q.phase with
    | choosing =>
      rw [hp] at hr hq
      exact ⟨hr, _, h.dialogue, hq⟩
    | _ =>
      rw [hp] at ha
      cases ha

theorem Shows.legible (h : c.Shows p) (hp : p.Settled t) : c.Legible t := by
  obtain h | ⟨q, hq, h⟩ := h
  · exact h.rests.legible
  · exact h.holds.legible (hp q hq).1 (hp q hq).2

/-! ## Calls -/

/-- The slate shows a player that is in the midst of what it says it is. -/
def Tracks (c : Slate) (t : Trace) : Prop := ∃ p : Player, c.Shows p ∧ p.Settled t

theorem Tracks.legible (h : c.Tracks t) : c.Legible t := by
  obtain ⟨p, hshows, hp⟩ := h
  exact hshows.legible hp

/-- **Each call leaves a slate that shows such a player.** -/
theorem Tracks.respond {s : Stage} (h : c.Tracks s.trace) (setting : Setting) (call : PlayerCall) :
    (c.respond setting call s).performer.Tracks (c.respond setting call s).stage.trace := by
  obtain ⟨p, hshows, hp⟩ := h
  have hanswers : Answers (c.respond setting call s) (p.respond setting call s) :=
    answers_respond hshows call s
  have hsettled : (p.call setting s call).1.Settled (p.call setting s call).2.trace :=
    Player.settled_call hp call
  rw [Player.call_eq_respond] at hsettled
  obtain ⟨-, hafter, hstage⟩ := hanswers
  dsimp only at hstage
  rw [hstage]
  exact ⟨_, hafter, hsettled⟩

theorem Tracks.meet {x : Slate × Trace} (h : x.1.Tracks x.2) (o : Occasion) :
    (performer.meet x o).1.Tracks (performer.meet x o).2 :=
  Tracks.respond (s := ⟨o.vars, o.requests, o.events, x.2⟩) h o.setting o.call

theorem tracks_foldl_meet (os : List Occasion) :
    ∀ x : Slate × Trace, x.1.Tracks x.2 →
      (os.foldl performer.meet x).1.Tracks (os.foldl performer.meet x).2 := by
  induction os with
  | nil => exact fun _ h => h
  | cons o os ih => exact fun x h => ih _ (h.meet o)

/-- **What is written on a slate fits together**, whatever scripts it is given, whatever it is asked
for and whatever happens around it in the meantime. -/
theorem legible_meetAll (os : List Occasion) :
    (performer.meetAll os).1.Legible (performer.meetAll os).2 :=
  (tracks_foldl_meet os (.blank, []) ⟨.idle, mimics.new, Player.settled_of_idle rfl _⟩).legible

end Slate

end Colloquy
