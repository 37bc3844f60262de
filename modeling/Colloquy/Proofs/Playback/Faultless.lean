import Colloquy.Proofs.Playback.Role
import Colloquy.Proofs.Script.RoundTrip

/-!
# Proofs/Playback/Faultless — clean scripts are played without fault

Nothing that the linter looks for comes up as a clean script is played: its sentences have no issues
and its actions are declared and of known types (`Playback.faultless_run`). There is one thing that
it does not look for, since it is checked when an action fires: a tag may supply something blank for
an action that needs it. An action of a clean script lacks something for that reason and no other
(`Playback.lackingForBlanks_run`).
-/

namespace Colloquy

open Markup

/-- A moment on a text box fires an action, with what is supplied for it, while a clean script is
performed there. -/
structure CleanFiring (ms : List Moment) (c : Conversation) (m : Moment) (name : String)
    (supplied : Supplied) : Prop where
  clean : c.Clean
  during : m.During ms c.prepare.value
  fires : m.firing? = some (name, supplied)

/-- What is true of the moments on a text box, as far as clean scripts are performed there. -/
structure Faultless (ms : List Moment) : Prop where
  /-- No sentence that is shown has issues. -/
  issues : ∀ {c : Conversation} {d : Dialogue} {place : Nat} {s : Sentence}, c.Clean →
    Moment.During ms c.prepare.value (.shown d place s) → s.issues = []
  /-- Each action that is fired is declared and of a known type. -/
  declared : ∀ {c m name supplied}, CleanFiring ms c m name supplied →
    ∃ a e, c.prepare.value.action? name = some a ∧ a.effect? = some e
  /-- So firing one does not fail for the want of either. -/
  performed : ∀ {c m name supplied}, CleanFiring ms c m name supplied →
    ∀ (accepts : String → Bool) (other type : String),
      let result := (Action.performNamed accepts c.prepare.value.actions name supplied).result
      result ≠ .error (.notDeclared other) ∧ result ≠ .error (.unknownType other type)

/-- When an action lacks something that is fired on a text box, as far as clean scripts are
performed there: exactly when a tag supplies something blank in the place of it. -/
structure LackingForBlanks (ms : List Moment) : Prop where
  message : ∀ {c m name supplied}, CleanFiring ms c m name supplied →
    ∀ (accepts : String → Bool) (other : String) (e : Effect),
      (Action.performNamed accepts c.prepare.value.actions name supplied).result =
          .error (.missingMessage other e) ↔
        other = name ∧ (c.prepare.value.action? name).bind (·.effect?) = some e ∧
          e.needsMessage = true ∧
          ∃ text, m = .tag (.perform name (.message text)) ∧ Text.IsBlank text
  target : ∀ {c m name supplied}, CleanFiring ms c m name supplied →
    ∀ (accepts : String → Bool) (other : String) (e : Effect),
      (Action.performNamed accepts c.prepare.value.actions name supplied).result =
          .error (.missingTarget other e) ↔
        other = name ∧ (c.prepare.value.action? name).bind (·.effect?) = some e ∧
          e.needsTarget = true ∧
          ∃ target, m = .tag (.perform name (.target target)) ∧ Text.IsBlank target

/-- Only a tag supplies anything. -/
theorem Moment.eq_tag_of_firing? {m : Moment} {name : String} {supplied : Supplied}
    (h : m.firing? = some (name, supplied)) (hs : supplied ≠ .nothing) :
    m = .tag (.perform name supplied) := by
  cases m with
  | tag k =>
    cases k with
    | perform other supplied' =>
      cases h
      rfl
    | _ => cases h
  | fired a =>
    cases h
    exact absurd rfl hs
  | _ => cases h

section

variable {ms : List Moment} (h : ∀ {script m}, Moment.During ms script m → m.KeepsTo script)

include h

/-- An action that is fired while a clean script is performed is one that the script fires. -/
theorem CleanFiring.fires_of_keepsTo {c : Conversation} {m : Moment} {name : String}
    {supplied : Supplied} (hf : CleanFiring ms c m name supplied) : c.Fires name supplied :=
  Conversation.fires_of_prepare ((h hf.during).fires _ _ hf.fires)

/-- It is declared and of a known type, and unless it is that nobody takes its message, the cause
of its failure is that it lacks something. -/
theorem CleanFiring.exists_effect {c : Conversation} {m : Moment} {name : String}
    {supplied : Supplied} (hf : CleanFiring ms c m name supplied) :
    ∃ e, (c.prepare.value.action? name).bind (·.effect?) = some e ∧
      ∀ (accepts : String → Bool) (cause : ActionError), (∀ target, .undelivered target ≠ cause) →
        ((Action.performNamed accepts c.prepare.value.actions name supplied).result =
          .error cause ↔ Action.Lacks name e supplied cause) := by
  obtain ⟨a, e, ha, he, herror⟩ :=
    hf.clean.result_performNamed_eq_error_iff (hf.fires_of_keepsTo h)
  refine ⟨e, ?_, fun accepts cause hcause => ?_⟩
  · rw [Conversation.action?_prepare, ha, Option.bind_some, he]
  · rw [Conversation.actions_prepare, herror]
    exact or_iff_left fun hundelivered => hcause _ hundelivered.2.2.2

/-- Where everything keeps to the scripts, clean scripts are played without fault. -/
theorem faultless_of_keepsTo : Faultless ms where
  issues hc hm := hc.issues_eq_nil (Conversation.speaks_of_prepare ((h hm).speaks _ _ _ rfl))
  declared hf := by
    obtain ⟨e, heffect, -⟩ := hf.exists_effect h
    obtain ⟨a, ha, he⟩ := Option.bind_eq_some_iff.1 heffect
    exact ⟨a, e, ha, he⟩
  performed hf accepts other type := by
    obtain ⟨e, -, herror⟩ := hf.exists_effect h
    constructor
    · intro hr
      cases (herror accepts _ (by simp)).1 hr
    · intro hr
      cases (herror accepts _ (by simp)).1 hr

/-- Their actions lack something for blanks only. -/
theorem lackingForBlanks_of_keepsTo : LackingForBlanks ms where
  message hf accepts other e := by
    obtain ⟨e', heffect, herror⟩ := hf.exists_effect h
    rw [heffect, Option.some.injEq, herror _ _ (by simp)]
    constructor
    · rintro (⟨hneeds, hblank⟩ | _)
      exact ⟨rfl, rfl, hneeds, _, Moment.eq_tag_of_firing? hf.fires (by simp), hblank⟩
    · rintro ⟨rfl, rfl, hneeds, text, rfl, hblank⟩
      cases hf.fires
      exact .message hneeds hblank
  target hf accepts other e := by
    obtain ⟨e', heffect, herror⟩ := hf.exists_effect h
    rw [heffect, Option.some.injEq, herror _ _ (by simp)]
    constructor
    · rintro (_ | ⟨hneeds, hblank⟩)
      exact ⟨rfl, rfl, hneeds, _, Moment.eq_tag_of_firing? hf.fires (by simp), hblank⟩
    · rintro ⟨rfl, rfl, hneeds, target, rfl, hblank⟩
      cases hf.fires
      exact .target hneeds hblank

end

namespace Playback

/-- Whatever operations a game asks for, on every text box everything keeps to the scripts. -/
theorem keepsTo_run (entries : List (String × Conversation)) (setting : Setting) (vars : Variables)
    (os : List Operation) :
    let x := Playback.new (.stocked entries) setting vars
    ∃ (acts : Acts) (l : List Happening), acts.map (·.1) = os ∧ x.Plays acts (x.run os) ∧
      l.map (·.mark) = acts.marks ∧ Orderly (x.run os) l ∧
        ∀ {c script m}, Moment.During (l.filterMap (Happening.on? c)) script m →
          m.KeepsTo script := by
  intro x
  have hx : (Scene.of x).Sound :=
    Scene.sound_new (Library.sound_stocked entries) setting vars
  obtain ⟨acts, hos, hplays⟩ := exists_plays os hx
  obtain ⟨l, hl, horderly⟩ := hplays.exists_orderly hx
  refine ⟨acts, l, hos, hplays, hl, horderly, fun {c} => ?_⟩
  rw [Acts.filterMap_on? hl]
  exact hplays.keepsTo hx

/-- **Clean scripts are played without fault.** Whatever conversations are stored, however the
variables stand and whatever operations a game asks for, on every text box the moments of clean
scripts are without fault. -/
theorem faultless_run (entries : List (String × Conversation)) (setting : Setting)
    (vars : Variables) (os : List Operation) :
    let x := Playback.new (.stocked entries) setting vars
    ∃ (acts : Acts) (l : List Happening), acts.map (·.1) = os ∧ x.Plays acts (x.run os) ∧
      l.map (·.mark) = acts.marks ∧ Orderly (x.run os) l ∧
        ∀ c, Faultless (l.filterMap (Happening.on? c)) := by
  obtain ⟨acts, l, hos, hplays, hl, horderly, hkeeps⟩ := keepsTo_run entries setting vars os
  exact ⟨acts, l, hos, hplays, hl, horderly, fun _ => faultless_of_keepsTo hkeeps⟩

/-- **Actions of clean scripts lack something for blanks only**, whatever conversations are stored,
however the variables stand and whatever operations a game asks for. -/
theorem lackingForBlanks_run (entries : List (String × Conversation)) (setting : Setting)
    (vars : Variables) (os : List Operation) :
    let x := Playback.new (.stocked entries) setting vars
    ∃ (acts : Acts) (l : List Happening), acts.map (·.1) = os ∧ x.Plays acts (x.run os) ∧
      l.map (·.mark) = acts.marks ∧ Orderly (x.run os) l ∧
        ∀ c, LackingForBlanks (l.filterMap (Happening.on? c)) := by
  obtain ⟨acts, l, hos, hplays, hl, horderly, hkeeps⟩ := keepsTo_run entries setting vars os
  exact ⟨acts, l, hos, hplays, hl, horderly, fun _ => lackingForBlanks_of_keepsTo hkeeps⟩

end Playback

/-- A conversation with an action that logs a line, and a tag that supplies an empty one. -/
def Conversation.muttering : Conversation where
  dialogues := [{ id := 0, startingPoint := true,
                  sentences := ["Hm.<actionwithmessage=say></actionwithmessage>"] }]
  actions := [⟨"say", "Log", some "Hello.", none⟩]

theorem Conversation.clean_muttering : Conversation.muttering.Clean := by
  have hread : ofText muttering.toText = .ok muttering := ofText_toText muttering
  have haudit : muttering.audit.result = .ok () := by decide +kernel
  have hactions : muttering.lintActions = [] := by decide +kernel
  have hsentences : muttering.sentences.flatMap (fun s => muttering.lintSentence s.1 s.2) = [] := by
    decide +kernel
  have huse : muttering.lintUse = [] := by decide +kernel
  have hreach : muttering.unreachable = [] := by
    have hlinks : muttering.linksOf 0 = [] := by decide +kernel
    have hids : muttering.startingIds = [0] := by decide +kernel
    have hleft : crossOff 0 [0] = [] := by decide +kernel
    rw [unreachable, hids, show muttering.dialogues.map (·.id) = [0] from rfl, leftover,
      if_pos (List.mem_singleton_self _), hleft, hlinks, List.append_nil, leftover,
      List.mergeSort_nil]
  refine ⟨none, muttering.toText, hread, (findings_eq_nil_iff hread none).2 ⟨haudit, ?_⟩⟩
  rw [lint, hactions, hsentences, huse, hreach]
  rfl

/-- The conversation is clean, but its action fails for the want of a message. -/
theorem Conversation.muttering_lacks_message :
    let x := Playback.new (.stocked [("m", .muttering)]) ⟨{}, default, fun _ => false⟩ .empty
    Conversation.muttering.Clean ∧
      (Action.performNamed (fun _ => false) Conversation.muttering.actions "say"
        (.message "")).result = .error (.missingMessage "say" (.log .info)) ∧
      .note (.failure "skipping action: action 'say' (Log) needs a message") ∈
        (x.run [.start "m", .tick (.ofRatio false 100 1)]).trace :=
  ⟨clean_muttering, by decide +kernel, by decide +kernel⟩

end Colloquy
