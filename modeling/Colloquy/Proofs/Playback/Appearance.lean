import Colloquy.Proofs.Playback.Dressing

/-!
# Proofs/Playback/Appearance — what appears of the main conversation is true to its script

A player remembers the theme it is in and who spoke last, to leave out what would change nothing.
**The main result** is `Playback.faithful_run`: wherever an operation has come to, the theme that is
remembered is the one that was put on last, every theme was reported, a sentence is laid out in the
theme of its dialogue, and it is shown under the name of its speaker, set since it was last silent.

What carries it is that each step changes the theme and the name along with what is remembered of
them (`Scene.Step.exists_changes`), and that the name that is remembered is that of who speaks
(`Scene.Step.bearsName`). Where a step lays out a sentence is found from the calls alone
(`Scene.Step.exists_of_sentence`), as a theme is put on without a call.
-/

namespace Colloquy

open Markup

/-! ## Who speaks -/

/-- While a sentence of a dialogue is shown, it is the name of its speaker that is borne. -/
def Performance.BearsName (q : Performance) : Prop :=
  q.sentenceIndex? ≠ none → q.name? = some (q.dialogue.speaker?.getD "")

/-- Whatever is done in the main performance, the name that is borne is that of who speaks. -/
theorem Lead.Act.bearsName {setting : Setting} {o : Operation} {l l' : Lead} {m? : Option Moment}
    (h : Lead.Act setting o l m? l') (hl : ∀ q, l.player.playing = some q → q.BearsName) :
    ∀ q, l'.player.playing = some q → q.BearsName := by
  intro r hr
  cases h with
  | say hq =>
    rw [Lead.of, Player.playing_say] at hr
    cases hr
    exact fun _ => rfl
  | elapse hq | letter hq | lastTag hq | whole hq | offer hq =>
    cases hr
    have hsame := hl _ hq
    exact hsame
  | tag hq hp hstep hd hf =>
    rw [Lead.of, Player.playing_followUp hf] at hr
    cases hr
    have hsame := hl _ hq
    exact hsame
  | link | follow =>
    cases hr
    exact fun h => absurd rfl h
  | choose | conclude | fire | lastAction | note | obey => exact hl r hr
  | request hq hp hf hc =>
    rw [Lead.of, Player.playing_answer hc] at hr
    exact hl r hr
  | finish hq =>
    rw [Lead.of, Player.stop_of_playing hq] at hr
    cases hr

/-! ## Where a sentence is laid out -/

/-- Where a list is cut at the first element of a kind, it is cut in one way only. -/
theorem eq_of_cut {α : Type} {P : α → Bool} {a b : α} (ha : P a = true) (hb : P b = true)
    {xs ys : List α} (h : xs.filter P = []) (k : ys.filter P = []) {xs' ys' : List α}
    (heq : xs ++ a :: xs' = ys ++ b :: ys') : xs = ys ∧ a = b ∧ xs' = ys' := by
  have htake : ∀ {zs zs' : List α} {c : α}, P c = true → zs.filter P = [] →
      (zs ++ c :: zs').takeWhile (!P ·) = zs := by
    intro zs zs' c hc hzs
    have hall : ∀ z ∈ zs, (!P z) = true := fun z hz => by
      simpa using List.filter_eq_nil_iff.1 hzs z hz
    rw [List.takeWhile_append_of_pos hall, List.takeWhile_cons_of_neg (by simp [hc]),
      List.append_nil]
  have hxs : xs = ys := by rw [← htake ha h, heq, htake hb k]
  subst hxs
  exact ⟨rfl, List.cons.inj (List.append_cancel_left heq)⟩

/-- What has been called since is the calls of what has been observed since. -/
theorem callsOf_since {s s' : Stage} {t calls : Trace} {es : List Event} (h : s.Adds s' calls es)
    (ht : s'.trace = s.trace ++ t) : callsOf t = calls := by
  have hcalls := h.callsOf_trace
  rw [ht, callsOf_append] at hcalls
  exact List.append_cancel_left hcalls

/-- A sentence is laid out at its moment, before anything else that is called then. -/
theorem Moment.Presents.of_sentence {c d : Channel} {m : Moment} {before after : Trace}
    {text : String} {speaker? : Option String} {same auto : Bool}
    (h : m.Presents c (before ++ .sentence d text speaker? same auto :: after)) :
    d = c ∧ before = [] ∧ ∃ dialogue place sentence, m = .shown dialogue place sentence := by
  have hmem : Entry.sentence d text speaker? same auto ∈
      before ++ .sentence d text speaker? same auto :: after :=
    List.mem_append_right _ (List.mem_cons_self ..)
  have hc : d = c := h.channel hmem rfl
  cases m with
  | shown dialogue place sentence =>
    refine ⟨hc, ?_, _, _, _, rfl⟩
    obtain ⟨_, _, rest, heq, hrest⟩ := h
    cases before with
    | nil => rfl
    | cons e before =>
      obtain ⟨-, hlater⟩ := List.cons.inj heq
      have hlaid : Entry.sentence d text speaker? same auto ∈ rest :=
        hlater ▸ List.mem_append_right _ (List.mem_cons_self ..)
      obtain ⟨_, hne⟩ | ⟨_, hne⟩ := hrest _ hlaid <;> cases hne
  | letter | whole | ended | chosen | concluded =>
    rw [show before ++ _ = _ from h] at hmem
    simp at hmem
  | offered =>
    rw [h.2] at hmem
    simp at hmem
  | tag =>
    obtain hdeed | ⟨_, hne⟩ := h _ hmem
    · cases hdeed
    · cases hne
  | fired => cases h _ hmem
  | begun | entered =>
    obtain ⟨_, hne⟩ := h _ hmem
    cases hne

namespace Player

/-- **The theme of a dialogue is put on before a sentence of it is laid out**, unless it is the one
that was put on last. -/
theorem exists_trace_say (setting : Setting) (q : Performance) (raw : String) (p : Player)
    (s : Stage) :
    ∃ before text same rest,
      (p.say setting q raw s).2.trace = s.trace ++ before ++
        .sentence .main text q.dialogue.speaker? same q.dialogue.autoProceed :: rest ∧
      callsOf before = [] ∧
      ∀ theme, q.dialogue.theme? = some theme →
        (p.theme.toList ++ themesOf before).getLast? = some theme := by
  obtain ⟨⟨themes, hdress⟩, hworn, -⟩ := p.exists_changes_dress s q.dialogue
  have hsame := p.same_dress q.dialogue s
  unfold say
  dsimp only
  generalize p.dress q.dialogue s = x at hdress hworn hsame ⊢
  obtain ⟨t, ht, rfl, -⟩ := hdress.trace
  have hread := x.2.quiet_read raw
  have hsame' := x.2.same_read raw
  generalize x.2.read raw = y at hread hsame' ⊢
  obtain ⟨u, hu, huthemes, -⟩ := hread.trace
  have hbefore : y.2.trace = s.trace ++ (t ++ u) := by
    rw [hu, show x.2.trace = s.trace ++ t from ht, List.append_assoc]
  have hcalls : callsOf (t ++ u) = [] := by
    rw [callsOf_append, callsOf_since hsame ht, callsOf_since hsame' hu, List.append_nil]
  have htheme : ∀ theme, q.dialogue.theme? = some theme →
      (p.theme.toList ++ themesOf (t ++ u)).getLast? = some theme := by
    intro theme h
    rw [themesOf_append, huthemes, List.append_nil, ← hworn theme h]
    exact hdress.theme.symm
  cases !q.opening && q.lastSpeaker == q.dialogue.speaker? with
  | true => exact ⟨t ++ u, y.1.text, true, [], by rw [← hbefore]; rfl, hcalls, htheme⟩
  | false =>
    let shown := y.2.observe
      [.sentence .main y.1.text q.dialogue.speaker? false q.dialogue.autoProceed]
    obtain ⟨rest, hrest, -⟩ := (x.1.changes_introduce shown
      (x.1.put (saying setting q y.1)) setting rfl rfl).trace
    refine ⟨t ++ u, y.1.text, false, rest, ?_, hcalls, htheme⟩
    rw [← hbefore, List.append_cons]
    exact hrest

end Player

/-- Where a sentence is laid out in the main performance, it is one of the dialogue that is
performed from then on, and the theme of that dialogue is the last that was put on. -/
theorem Lead.Act.exists_of_sentence {setting : Setting} {o : Operation} {l l' : Lead}
    {d : Dialogue} {place : Nat} {sentence : Sentence}
    (h : Lead.Act setting o l (some (.shown d place sentence)) l') {before after : Trace}
    {text : String} {speaker? : Option String} {same auto : Bool}
    (ht : l'.stage.trace =
      l.stage.trace ++ before ++ .sentence .main text speaker? same auto :: after)
    (hbefore : callsOf before = []) :
    ∃ q, l'.player.playing = some q ∧ q.sentenceIndex? ≠ none ∧ speaker? = q.dialogue.speaker? ∧
      ∀ theme, q.dialogue.theme? = some theme →
        (l.player.theme.toList ++ themesOf before).getLast? = some theme := by
  cases h with
  | @say q raw p s hq =>
    obtain ⟨b, _, _, rest, hsay, hb, htheme⟩ := p.exists_trace_say setting q raw s
    rw [Lead.of, hsay, List.append_assoc, List.append_assoc] at ht
    -- a theme is no call, so that only the first call says where the sentence stands
    obtain ⟨rfl, he, -⟩ := eq_of_cut (P := Entry.isCall) rfl rfl hb hbefore
      (List.append_cancel_left ht)
    cases he
    exact ⟨_, Player.playing_say .., Option.some_ne_none _, rfl, htheme⟩

namespace Scene

/-- What appears of the main performance in a scene, the events that were taken included. -/
def front (x : Scene) : Front := ⟨x.session.player, x.session.stage.trace, x.events⟩

/-! ## What a step changes -/

/-- What is true of a stage is true of the scene, whatever was taken before. -/
theorem changes_of_stage {x y : Scene} {themes names : List String} (hheard : y.heard = x.heard)
    (h : (Front.of (x.session.player, x.session.stage)).Changes
      (.of (y.session.player, y.session.stage)) themes names) :
    x.front.Changes y.front themes names where
  trace := h.trace
  reported := by
    have hreported : themesReported y.session.stage.events =
        themesReported x.session.stage.events ++ themes := h.reported
    rw [front, front, events, events, hheard, themesReported_append, themesReported_append,
      hreported, List.append_assoc]
  theme := h.theme
  name := h.name

/-- What leaves the player alone, and the stage quiet. -/
theorem changes_of_quiet {x y : Scene} (hplayer : y.session.player = x.session.player)
    (hheard : y.heard = x.heard) (h : x.session.stage.Quiet y.session.stage) :
    x.front.Changes y.front [] [] :=
  changes_of_stage hheard (Front.changes_of_quiet h (by rw [hplayer]) (.inr (by rw [hplayer])))

/-- **Whatever happens, the player goes by the last theme and name.** -/
theorem Step.exists_changes {o : Operation} {x y : Scene} {k? : Option Mark}
    (h : Step o x k? y) : ∃ themes names, x.front.Changes y.front themes names := by
  cases h with
  | lead h =>
    obtain ⟨themes, names, hchanges⟩ := h.exists_changes
    exact ⟨themes, names, changes_of_stage rfl hchanges⟩
  | ambient hb h => exact ⟨_, _, changes_of_quiet rfl rfl h.quiet⟩
  | begin =>
    exact ⟨_, _, changes_of_stage rfl
      (Front.changes_of_quiet (Stage.quiet_begin _ _ rfl) rfl (.inl rfl))⟩
  | beginBackground =>
    exact ⟨_, _, changes_of_quiet rfl rfl
      ((Stage.quiet_begin _ _ rfl).trans (Background.quiet_visit true _ _ _))⟩
  | skipId | forget | load => exact ⟨_, _, .refl _⟩
  | take | drop => exact ⟨_, _, changes_of_quiet rfl rfl (Stage.quiet_of_eq rfl rfl)⟩
  | @theme name rest hr =>
    let s : Stage := { x.session.stage with requests := rest }
    exact ⟨_, _, changes_of_stage rfl (x.session.player.changes_changeTheme s name)⟩
  | vary => exact ⟨_, _, changes_of_quiet rfl rfl (Stage.quiet_vary _ _)⟩
  | drain =>
    have hfront : x.front = front
        { x.withStage { x.session.stage with events := [] } with
          heard := x.heard ++ x.session.stage.events } := by
      rw [front, front, events, events, withStage, List.append_nil]
    exact ⟨[], [], hfront ▸ .refl _⟩

theorem Step.bearsName {o : Operation} {x y : Scene} {k? : Option Mark} (h : Step o x k? y)
    (hx : ∀ q, x.session.player.playing = some q → q.BearsName) :
    ∀ q, y.session.player.playing = some q → q.BearsName := by
  cases h with
  | lead h => exact h.bearsName hx
  | begin =>
    intro q hq
    cases hq
    exact fun h => absurd rfl h
  | _ => exact hx

/-- Only a step of the main performance is a moment on the main text box, but for a beginning. -/
theorem Step.act_of_shown {o : Operation} {x y : Scene} {d : Dialogue} {place : Nat}
    {sentence : Sentence} (h : Step o x (some ⟨.main, .shown d place sentence⟩) y) :
    Lead.Act x.session.setting o x.lead (some (.shown d place sentence)) y.lead := by
  generalize hk : some (Mark.mk .main (.shown d place sentence)) = k? at h
  cases h with
  | lead h =>
    obtain ⟨m, rfl, hm⟩ := Option.map_eq_some_iff.1 hk.symm
    cases hm
    exact h
  | ambient hb h =>
    obtain ⟨m, rfl, hm⟩ := Option.map_eq_some_iff.1 hk.symm
    cases hm
  | _ => cases hk

/-- **When a sentence is laid out on the main text box**, it is one of the dialogue that is
performed from then on, and the theme of that dialogue is the last that was put on. -/
theorem Step.exists_of_sentence {o : Operation} {x y : Scene} {k? : Option Mark}
    (h : Step o x k? y) {before after : Trace} {text : String} {speaker? : Option String}
    {same auto : Bool}
    (ht : y.session.stage.trace =
      x.session.stage.trace ++ before ++ .sentence .main text speaker? same auto :: after) :
    ∃ q, y.session.player.playing = some q ∧ q.sentenceIndex? ≠ none ∧
      speaker? = q.dialogue.speaker? ∧
      ∀ theme, q.dialogue.theme? = some theme →
        (x.session.player.theme.toList ++ themesOf before).getLast? = some theme := by
  have hcalls : ∀ {calls : Trace} {es : List Event}, x.Adds y calls es →
      calls = callsOf before ++ .sentence .main text speaker? same auto :: callsOf after := by
    intro calls es hadds
    have heq := hadds.callsOf_trace
    rw [ht, List.append_assoc, callsOf_append] at heq
    rw [← List.append_cancel_left heq, callsOf_append]
    rfl
  have hshows := h.shows
  cases k? with
  | none => exact absurd (hcalls hshows).symm (by simp)
  | some k =>
    obtain ⟨calls, hpresents, hadds⟩ := hshows
    rw [hcalls hadds] at hpresents
    obtain ⟨c, m⟩ := k
    obtain ⟨rfl, hbefore, d, place, sentence, rfl⟩ := hpresents.of_sentence
    exact h.act_of_shown.exists_of_sentence ht hbefore

/-! ## How a session unfolds -/

/-- A session unfolds step by step, and wherever nothing is left to do a game may ask for another
operation. -/
inductive Unfolds : Scene → Scene → Prop
  | refl (x : Scene) : Unfolds x x
  | step {x y z : Scene} {o : Operation} {k? : Option Mark} (h : Step o x k? y)
    (hrest : Unfolds y z) : Unfolds x z
  | ask {x : Playback} {o : Operation} {z : Scene} (hrest : Unfolds (asked x o) z) :
    Unfolds (of x) z

theorem Unfolds.trans {x y z : Scene} (h : x.Unfolds y) (k : y.Unfolds z) : x.Unfolds z := by
  induction h with
  | refl => exact k
  | step h _ ih => exact .step h (ih k)
  | ask _ ih => exact .ask (ih k)

theorem unfolds_of_path {o : Operation} {x y : Scene} {ks : List (Option Mark)}
    (h : Path (Step o) x ks y) : x.Unfolds y := by
  induction h with
  | refl => exact .refl _
  | cons h _ ih => exact .step h ih

theorem unfolds_of_plays {x y : Playback} {acts : Acts} (h : x.Plays acts y) :
    (of x).Unfolds (of y) := by
  induction h with
  | nil => exact .refl _
  | cons h _ ih => exact .ask ((unfolds_of_path h).trans ih)

/-- Asking for an operation changes nothing that appears. -/
theorem Unfolds.exists_changes {x y : Scene} (h : x.Unfolds y) :
    ∃ themes names, x.front.Changes y.front themes names := by
  induction h with
  | refl x => exact ⟨[], [], .refl _⟩
  | step h _ ih =>
    obtain ⟨themes, names, hfirst⟩ := h.exists_changes
    obtain ⟨themes', names', hrest⟩ := ih
    exact ⟨themes ++ themes', names ++ names', hfirst.trans hrest⟩
  | ask _ ih => exact ih

theorem Unfolds.bearsName {x y : Scene} (h : x.Unfolds y)
    (hx : ∀ q, x.session.player.playing = some q → q.BearsName) :
    ∀ q, y.session.player.playing = some q → q.BearsName := by
  induction h with
  | refl => exact hx
  | step h _ ih => exact ih (h.bearsName hx)
  | ask _ ih => exact ih hx

/-- **Who speaks is named in the conversation**: since nothing was performed, the last name that was
set on the main text box is that of whose sentence is shown. -/
theorem Unfolds.exists_name {x y : Scene} (h : x.Unfolds y)
    (hsilent : x.session.player.playing = none) {q : Performance}
    (hq : y.session.player.playing = some q) (hshown : q.sentenceIndex? ≠ none) :
    ∃ since, y.session.stage.trace = x.session.stage.trace ++ since ∧
      (namesOf since).getLast? = some (q.dialogue.speaker?.getD "") := by
  have hidle : ∀ r, x.session.player.playing = some r → r.BearsName := by
    rw [hsilent]
    simp
  have hbears : q.name? = some (q.dialogue.speaker?.getD "") := h.bearsName hidle q hq hshown
  have hx : x.front.player.name? = none := by rw [front, Player.name?, hsilent]; rfl
  have hy : y.front.player.name? = q.name? := by rw [front, Player.name?, hq]; rfl
  obtain ⟨themes, names, hchanges⟩ := h.exists_changes
  obtain ⟨since, hsince, -, rfl⟩ := hchanges.trace
  refine ⟨since, hsince, ?_⟩
  have hname := hchanges.name
  -- no name was borne at first, so that the one that is borne now is the last that was set
  rw [hx, hy, hbears] at hname
  rcases hname with hnone | hname
  · cases hnone
  · exact hname.symm

/-! ## What is true to the script -/

/-- What appears of the main conversation is true to its script. -/
structure Faithful (x : Scene) : Prop where
  /-- The theme that the player is in is the one that was put on last. -/
  theme : x.session.player.theme = (themesOf x.session.stage.trace).getLast?
  /-- The themes that were put on, and no others, have been reported, in the same order. -/
  reported : themesReported x.events = themesOf x.session.stage.trace
  /-- When a sentence is laid out, the theme of its dialogue is the last that was put on. -/
  dressed : ∀ {o : Operation} {k? : Option Mark} {y : Scene}, Step o x k? y →
    ∀ {before after : Trace} {text : String} {speaker? : Option String} {same auto : Bool},
      y.session.stage.trace =
        x.session.stage.trace ++ before ++ .sentence .main text speaker? same auto :: after →
      ∃ q, y.session.player.playing = some q ∧ q.sentenceIndex? ≠ none ∧
        speaker? = q.dialogue.speaker? ∧
        ∀ theme, q.dialogue.theme? = some theme →
          (themesOf (x.session.stage.trace ++ before)).getLast? = some theme
  /-- While a sentence is shown, the last name that was set is that of its speaker, and it was set
  in the same conversation: since any moment when nothing was performed. -/
  named : x.session.player.playing = none → ∀ {y : Scene}, x.Unfolds y →
    ∀ {q : Performance}, y.session.player.playing = some q → q.sentenceIndex? ≠ none →
      ∃ since, y.session.stage.trace = x.session.stage.trace ++ since ∧
        (namesOf since).getLast? = some (q.dialogue.speaker?.getD "")

/-- Changes since nothing had appeared. -/
theorem faithful_of_changes {x y : Scene} {themes names : List String}
    (h : x.front.Changes y.front themes names) (htheme : x.session.player.theme = none)
    (htrace : x.session.stage.trace = []) (hevents : x.events = []) : y.Faithful := by
  obtain ⟨t, ht, rfl, -⟩ := h.trace
  have hy : y.session.stage.trace = t := by
    rw [show y.session.stage.trace = x.session.stage.trace ++ t from ht, htrace, List.nil_append]
  have hworn : y.session.player.theme = (themesOf y.session.stage.trace).getLast? := by
    have hlast : y.session.player.theme =
      (x.session.player.theme.toList ++ themesOf t).getLast? := h.theme
    rw [hlast, htheme, hy]
    rfl
  refine ⟨hworn, ?_, ?_, fun hsilent _ hunfolds => hunfolds.exists_name hsilent⟩
  · have hreported : themesReported y.events = themesReported x.events ++ themesOf t := h.reported
    rw [hreported, hevents, hy]
    rfl
  · intro o k? z hstep before after text speaker? same auto hlaid
    obtain ⟨q, hq, hshown, hspeaker, hdressed⟩ := hstep.exists_of_sentence hlaid
    refine ⟨q, hq, hshown, hspeaker, fun theme hd => ?_⟩
    rw [themesOf_append, ← Front.getLast?_getLast?_append, ← hworn]
    exact hdressed theme hd

end Scene

namespace Playback

/-- **What appears is true to the script.** Whatever conversations are stored, however the variables
stand and whatever operations a game asks for, a session unfolds step by step, and wherever it has
come to, the themes and the names of the main conversation are those that its script gives. -/
theorem faithful_run (entries : List (String × Conversation)) (setting : Setting)
    (vars : Variables) :
    let x := Scene.of (.new (.stocked entries) setting vars)
    (∀ os, x.Unfolds (.of (run (.new (.stocked entries) setting vars) os))) ∧
      ∀ y, x.Unfolds y → y.Faithful := by
  intro x
  have hx : x.Sound := Scene.sound_new (Library.sound_stocked entries) setting vars
  refine ⟨fun os => ?_, fun y h => ?_⟩
  · obtain ⟨acts, -, hplays⟩ := exists_plays os hx
    exact Scene.unfolds_of_plays hplays
  · obtain ⟨themes, names, hchanges⟩ := h.exists_changes
    exact Scene.faithful_of_changes hchanges rfl rfl rfl

end Playback

end Colloquy
