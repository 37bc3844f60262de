import Colloquy.Proofs.Playback.Solo

/-!
# Proofs/Playback/Dressing — which themes are put on, and which names are set

The main conversation appears in a theme and under a name. Neither is set anew where it seems to be
set already, so what appears depends on all that came before. A `Front` is what appears: the player,
with all that was observed and all that was reported. `Front.Changes` says which themes were put on
and which names were set on the way from one front to another: each theme is reported, and the
player goes by the last theme and by the last name. Changes come one after the other
(`Front.Changes.trans`), so that it takes one lemma for each thing that is done
(`Lead.Act.exists_changes`, `Ambient.Act.quiet`).
-/

namespace Colloquy

open Markup

/-! ## Themes and names among what was observed -/

/-- The theme that an entry puts on. -/
def Entry.theme? : Entry → Option String
  | .theme name => some name
  | _ => none

/-- The name that an entry sets on the main text box. -/
def Entry.name? : Entry → Option String
  | .speaker .main name => some name
  | _ => none

/-- The theme that an event reports. -/
def Event.theme? : Event → Option String
  | .themeChanged theme => some theme
  | _ => none

/-- The themes that were put on. -/
def themesOf (t : Trace) : List String := t.filterMap Entry.theme?

/-- The names that were set on the main text box. -/
def namesOf (t : Trace) : List String := t.filterMap Entry.name?

/-- The themes that were reported. -/
def themesReported (es : List Event) : List String := es.filterMap Event.theme?

@[simp] theorem themesOf_append (t u : Trace) : themesOf (t ++ u) = themesOf t ++ themesOf u :=
  List.filterMap_append ..

@[simp] theorem namesOf_append (t u : Trace) : namesOf (t ++ u) = namesOf t ++ namesOf u :=
  List.filterMap_append ..

@[simp] theorem themesReported_append (es fs : List Event) :
    themesReported (es ++ fs) = themesReported es ++ themesReported fs :=
  List.filterMap_append ..

/-- Whether an entry has to do with neither a theme nor the name on the main text box. -/
def Entry.isPlain (e : Entry) : Bool := e.theme?.isNone && e.name?.isNone

theorem Entry.isPlain_of_isDeed_or_isAside {e : Entry} (h : e.isDeed = true ∨ e.isAside = true) :
    e.isPlain = true := by
  cases e with
  | deliver | log | change | note => rfl
  | _ => rcases h with h | h <;> cases h

theorem themesOf_eq_nil {t : Trace} (h : ∀ e ∈ t, e.isPlain = true) : themesOf t = [] :=
  List.filterMap_eq_nil_iff.2 fun e he =>
    Option.isNone_iff_eq_none.1 (Bool.and_eq_true_iff.1 (h e he)).1

theorem namesOf_eq_nil {t : Trace} (h : ∀ e ∈ t, e.isPlain = true) : namesOf t = [] :=
  List.filterMap_eq_nil_iff.2 fun e he =>
    Option.isNone_iff_eq_none.1 (Bool.and_eq_true_iff.1 (h e he)).2

/-- No theme is put on or reported from one stage to another, and no name is set. -/
structure Stage.Quiet (s s' : Stage) : Prop where
  trace : ∃ t, s'.trace = s.trace ++ t ∧ themesOf t = [] ∧ namesOf t = []
  reported : themesReported s'.events = themesReported s.events

namespace Stage

theorem Quiet.refl (s : Stage) : s.Quiet s := ⟨⟨[], (List.append_nil _).symm, rfl, rfl⟩, rfl⟩

theorem Quiet.trans {s t u : Stage} (h : s.Quiet t) (k : t.Quiet u) : s.Quiet u := by
  obtain ⟨⟨v, hv, hthemes, hnames⟩, hreported⟩ := h
  obtain ⟨⟨w, hw, kthemes, knames⟩, kreported⟩ := k
  refine ⟨⟨v ++ w, by rw [hw, hv, List.append_assoc], ?_, ?_⟩, kreported.trans hreported⟩
  · rw [themesOf_append, hthemes, kthemes, List.append_nil]
  · rw [namesOf_append, hnames, knames, List.append_nil]

/-- What stands on a stage besides can change. -/
theorem quiet_of_eq {s s' : Stage} (ht : s'.trace = s.trace) (he : s'.events = s.events) :
    s.Quiet s' :=
  ⟨⟨[], by rw [ht, List.append_nil], rfl, rfl⟩, by rw [he]⟩

theorem quiet_of_plain {s s' : Stage} {t : Trace} (ht : s'.trace = s.trace ++ t)
    (he : s'.events = s.events) (h : ∀ e ∈ t, e.isPlain = true) : s.Quiet s' :=
  ⟨⟨t, ht, themesOf_eq_nil h, namesOf_eq_nil h⟩, by rw [he]⟩

theorem quiet_observe (s : Stage) {t : Trace} (h : ∀ e ∈ t, e.isPlain = true) :
    s.Quiet (s.observe t) := quiet_of_plain rfl rfl h

theorem quiet_entry (s : Stage) {e : Entry} (h : e.isPlain = true) : s.Quiet (s.observe [e]) :=
  s.quiet_observe (List.forall_mem_singleton.2 h)

theorem quiet_report (s : Stage) {e : Event} (h : e.theme? = none) : s.Quiet (s.report e) := by
  refine ⟨⟨[], (List.append_nil _).symm, rfl, rfl⟩, ?_⟩
  rw [report, themesReported_append, themesReported, themesReported, List.filterMap_cons_none h,
    List.filterMap_nil, List.append_nil]

theorem quiet_annotate (s : Stage) (notes : List Note) : s.Quiet (s.annotate notes) :=
  s.quiet_observe fun _ he => Entry.isPlain_of_isDeed_or_isAside (.inr (isAside_of_mem_notes he))

theorem quiet_update {α : Type} (s : Stage) {u : Variables.Update α}
    (h : ∀ e ∈ u.trace, e.isAside = true) : s.Quiet (s.update u) :=
  quiet_of_plain rfl rfl fun e he => Entry.isPlain_of_isDeed_or_isAside (.inr (h e he))

theorem quiet_read (s : Stage) (raw : String) : s.Quiet (s.read raw).2 :=
  quiet_of_plain rfl rfl fun e he =>
    Entry.isPlain_of_isDeed_or_isAside (.inr (isAside_of_mem_ofTokens _ _ e he))

theorem quiet_fire (s : Stage) (setting : Setting) (declared : List Action) (name : String)
    (supplied : Supplied) : s.Quiet (s.fire setting declared name supplied).2 :=
  s.quiet_observe fun _ he =>
    Entry.isPlain_of_isDeed_or_isAside (Action.isDeed_or_isAside_of_mem_performNamed he)

/-- A command has nothing to do with the theme or the name, before what is left to do for it. -/
theorem quiet_carryOut (s : Stage) (setting : Setting) (declared : List Action) (k : Clock)
    (c : Command) : s.Quiet (s.carryOut setting declared k c).stage := by
  cases c with
  | removeVariable name => exact s.quiet_update fun _ => isAside_of_mem_remove
  | log severity text => exact s.quiet_entry rfl
  | sendMessage target message =>
    rw [carryOut]
    dsimp only
    split
    · exact s.quiet_annotate _
    · exact s.quiet_observe fun _ he =>
        Entry.isPlain_of_isDeed_or_isAside (Action.isDeed_or_isAside_of_mem_deliver he)
  | perform name supplied => exact s.quiet_fire setting declared name supplied
  | changeSprite set sprite => exact s.quiet_annotate _
  | _ => exact .refl s

/-- A conversation begins. -/
theorem quiet_begin (s : Stage) (script : Conversation) {e : Event} (h : e.theme? = none) :
    s.Quiet ((s.startingPoint script).2.report e) :=
  (s.quiet_annotate _).trans (quiet_report _ h)

theorem quiet_vary (s : Stage) (v : VariableCall) : s.Quiet (s.vary v) := by
  cases v with
  | register name v => exact s.quiet_update fun _ => isAside_of_mem_announce
  | registerText name raw kind => exact s.quiet_update fun _ => isAside_of_mem_registerText
  | remove name => exact s.quiet_update fun _ => isAside_of_mem_remove
  | subscribe => exact quiet_of_eq rfl rfl

theorem quiet_defer (s : Stage) (f : FollowUp) : s.Quiet (s.defer f) := by
  cases f <;> exact quiet_of_eq rfl rfl

end Stage

/-! ## Fronts -/

/-- The name that the main text box bears, once a sentence has been shown. -/
def Performance.name? (q : Performance) : Option String :=
  if q.opening then none else some (q.lastSpeaker.getD "")

/-- The name that the main text box bears in a performance, if it bears one. -/
def Player.name? (p : Player) : Option String := p.playing.bind (·.name?)

/-- What appears of the main conversation: the player, and all that was observed and reported. -/
structure Front where
  player : Player
  trace : Trace
  events : List Event

namespace Front

/-- What appears as a player acts on a stage. -/
def of (x : Player × Stage) : Front := ⟨x.1, x.2.trace, x.2.events⟩

/-- On the way from one front to another, some themes were put on and some names were set. The
player goes by the last theme, and by the last name, unless nothing bears a name any more. -/
structure Changes (f g : Front) (themes names : List String) : Prop where
  trace : ∃ t, g.trace = f.trace ++ t ∧ themesOf t = themes ∧ namesOf t = names
  /-- Each theme that was put on was reported. -/
  reported : themesReported g.events = themesReported f.events ++ themes
  theme : g.player.theme = (f.player.theme.toList ++ themes).getLast?
  name : g.player.name? = none ∨ g.player.name? = (f.player.name?.toList ++ names).getLast?

theorem getLast?_toList {α : Type} (a? : Option α) : a?.toList.getLast? = a? := by
  cases a? <;> rfl

/-- The last of all is the last of the later ones, or else of the earlier ones. -/
theorem getLast?_getLast?_append {α : Type} (xs ys : List α) :
    (xs.getLast?.toList ++ ys).getLast? = (xs ++ ys).getLast? := by
  rw [List.getLast?_append, List.getLast?_append, getLast?_toList]

theorem Changes.refl (f : Front) : f.Changes f [] [] where
  trace := ⟨[], (List.append_nil _).symm, rfl, rfl⟩
  reported := (List.append_nil _).symm
  theme := by rw [List.append_nil, getLast?_toList]
  name := by rw [List.append_nil, getLast?_toList]; exact .inr rfl

theorem Changes.trans {f g h : Front} {ts us ns ms : List String} (hf : f.Changes g ts ns)
    (hg : g.Changes h us ms) : f.Changes h (ts ++ us) (ns ++ ms) where
  trace := by
    obtain ⟨t, ht, rfl, rfl⟩ := hf.trace
    obtain ⟨u, hu, rfl, rfl⟩ := hg.trace
    exact ⟨t ++ u, by rw [hu, ht, List.append_assoc], themesOf_append t u, namesOf_append t u⟩
  reported := by rw [hg.reported, hf.reported, List.append_assoc]
  theme := by rw [hg.theme, hf.theme, getLast?_getLast?_append, List.append_assoc]
  name := by
    rcases hg.name with hnone | hname
    · exact .inl hnone
    rcases hf.name with hnone | hname'
    · -- no name was borne in between, so that it is the last of those set after that
      rw [hnone, Option.toList_none, List.nil_append] at hname
      cases ms using List.reverseRecOn with
      | nil => exact .inl hname
      | append_singleton ms m =>
        rw [← List.append_assoc, ← List.append_assoc, List.getLast?_concat]
        rw [List.getLast?_concat] at hname
        exact .inr hname
    · rw [hname', getLast?_getLast?_append, List.append_assoc] at hname
      exact .inr hname

/-- Where the stage is quiet, the player keeps to the theme and to the name, or bears none. -/
theorem changes_of_quiet {p p' : Player} {s s' : Stage} (h : s.Quiet s')
    (htheme : p'.theme = p.theme) (hname : p'.name? = none ∨ p'.name? = p.name?) :
    (of (p, s)).Changes (of (p', s')) [] [] where
  trace := h.trace
  reported := h.reported.trans (List.append_nil _).symm
  theme := by rw [List.append_nil, getLast?_toList]; exact htheme
  name := by rw [List.append_nil, getLast?_toList]; exact hname

end Front

/-! ## What a player does -/

namespace Player

open Front

variable (p : Player) (s : Stage)

/-- The theme changes, and that is reported. -/
theorem changes_changeTheme (theme : String) :
    (of (p, s)).Changes (of (p.changeTheme theme s)) [theme] [] where
  trace := ⟨[.theme theme], rfl, rfl, rfl⟩
  reported := themesReported_append s.events [.themeChanged theme]
  theme := by rw [List.getLast?_concat]; rfl
  name := by rw [List.append_nil, getLast?_toList]; exact .inr rfl

theorem exists_changes_answer {r : Request} (hr : r ≠ .closeConversation) :
    ∃ themes, (of (p, s)).Changes (of (p.answer r s)) themes [] := by
  cases r with
  | closeConversation => exact absurd rfl hr
  | changeTheme theme => exact ⟨_, p.changes_changeTheme s theme⟩
  | startBackgroundConversation _ | closeBackgroundConversations =>
    exact ⟨_, changes_of_quiet (Stage.quiet_of_eq rfl rfl) rfl (.inr rfl)⟩

theorem exists_changes_followUp {f : FollowUp} (hf : f ≠ .request .closeConversation) :
    ∃ themes, (of (p, s)).Changes (of (p.followUp s f)) themes [] := by
  cases f with
  | done => exact ⟨_, .refl _⟩
  | request r => exact p.exists_changes_answer s fun hr => hf (hr ▸ rfl)
  | portrait image? => exact ⟨_, changes_of_quiet (s.quiet_entry rfl) rfl (.inr rfl)⟩
  | theme theme => exact ⟨_, p.changes_changeTheme s theme⟩

/-- Whoever puts on the theme of a dialogue is in it then, if it has one. -/
theorem exists_changes_dress (d : Dialogue) :
    (∃ themes, (of (p, s)).Changes (of (p.dress d s)) themes []) ∧
      (∀ theme, d.theme? = some theme → (p.dress d s).1.theme = some theme) ∧
        (p.dress d s).1.playing = p.playing := by
  unfold dress
  split
  case h_1 theme htheme =>
    split
    case isTrue hworn => exact ⟨⟨_, .refl _⟩, fun _ h => h ▸ htheme ▸ hworn, rfl⟩
    case isFalse => exact ⟨⟨_, p.changes_changeTheme s theme⟩, fun _ h => h ▸ htheme.symm, rfl⟩
  case h_2 hnone => exact ⟨⟨_, .refl _⟩, fun _ h => (nomatch hnone.symm.trans h), rfl⟩

theorem quiet_portraitOf (setting : Setting) (d : Dialogue) :
    s.Quiet (portraitOf setting d s).2 := by
  unfold portraitOf
  split
  · exact s.quiet_annotate _
  · exact .refl s

/-- A speaker is introduced by name, and the player goes by it. -/
theorem changes_introduce (p' : Player) (setting : Setting) {d : Dialogue}
    (htheme : p'.theme = p.theme) (hname : p'.name? = some (d.speaker?.getD "")) :
    (of (p, s)).Changes (of (p', introduce setting d s)) [] [d.speaker?.getD ""] := by
  have hspeaker : (of (p, s)).Changes (of (p', s.observe [.speaker .main (d.speaker?.getD "")])) []
      [d.speaker?.getD ""] :=
    { trace := ⟨_, rfl, rfl, rfl⟩
      reported := (List.append_nil _).symm
      theme := by rw [List.append_nil, getLast?_toList]; exact htheme
      name := by rw [List.getLast?_concat]; exact .inr hname }
  exact hspeaker.trans (changes_of_quiet
    ((quiet_portraitOf _ setting d).trans (Stage.quiet_entry _ rfl)) rfl (.inr rfl))

/-- **Whoever says a sentence goes by the name of who speaks**, be it set anew or not. -/
theorem exists_changes_say (setting : Setting) {q : Performance} (raw : String) {p : Player}
    (hq : p.playing = some q) :
    ∃ themes names, (of (p, s)).Changes (of (p.say setting q raw s)) themes names := by
  obtain ⟨⟨themes, hdress⟩, -, hplaying⟩ := p.exists_changes_dress s q.dialogue
  unfold say
  dsimp only
  generalize p.dress q.dialogue s = x at hdress hplaying ⊢
  have hread := x.2.quiet_read raw
  generalize x.2.read raw = y at hread ⊢
  let p' := x.1.put (saying setting q y.1)
  have hname' : p'.name? = some (q.dialogue.speaker?.getD "") := rfl
  have hshown : ∀ same, x.2.Quiet (y.2.observe
      [.sentence .main y.1.text q.dialogue.speaker? same q.dialogue.autoProceed]) :=
    fun same => hread.trans (y.2.quiet_entry rfl)
  cases hsame : !q.opening && q.lastSpeaker == q.dialogue.speaker? with
  | false =>
    have hintroduced := x.1.changes_introduce (y.2.observe
      [.sentence .main y.1.text q.dialogue.speaker? false q.dialogue.autoProceed]) p' setting
      rfl hname'
    exact ⟨_, _, hdress.trans ((changes_of_quiet (hshown false) rfl (.inr rfl)).trans
      hintroduced)⟩
  | true =>
    obtain ⟨hopening, hspeaker⟩ := Bool.and_eq_true_iff.1 hsame
    have hname : x.1.name? = some (q.dialogue.speaker?.getD "") := by
      rw [name?, hplaying, hq, Option.bind_some, Performance.name?, ← eq_of_beq hspeaker]
      exact if_neg (by simpa using hopening)
    have hsilent : (of (x.1, x.2)).Changes (of (p', _)) [] [] :=
      changes_of_quiet (hshown true) rfl (.inr (hname'.trans hname.symm))
    exact ⟨_, _, hdress.trans hsilent⟩

theorem changes_stop {q : Performance} (hq : p.playing = some q) :
    (of (p, s)).Changes (of (p.stop s)) [] [] := by
  rw [stop_of_playing hq]
  exact changes_of_quiet ((s.quiet_entry rfl).trans (Stage.quiet_report _ rfl)) rfl (.inl rfl)

end Player

theorem Background.quiet_visit (first : Bool) (b : Background) (s : Stage) (d : Dialogue) :
    s.Quiet (b.visit first s d).2 := by
  rw [visit_eq]
  split
  · exact s.quiet_entry rfl
  · exact .refl s

/-! ## What is done one by one -/

/-- What appears of the main performance. -/
def Lead.front (l : Lead) : Front := .of (l.player, l.stage)

namespace Lead

variable {setting : Setting} {o : Operation}

/-- **Whatever is done in the main performance, the player goes by the last theme and name.** -/
theorem Act.exists_changes {l l' : Lead} {m? : Option Moment} (h : Act setting o l m? l') :
    ∃ themes names, l.front.Changes l'.front themes names := by
  have hquiet : ∀ {p p' : Player} {s s' : Stage}, s.Quiet s' → p'.theme = p.theme →
      p'.name? = p.name? → ∃ themes names, (Front.of (p, s)).Changes (.of (p', s')) themes names :=
    fun h htheme hname => ⟨_, _, Front.changes_of_quiet h htheme (.inr hname)⟩
  have hput : ∀ {p : Player} {q r : Performance}, p.playing = some q → r.name? = q.name? →
      (p.put r).name? = p.name? := by
    intro p q r hq hr
    rw [Player.name?, Player.name?, Player.playing_put, hq]
    exact hr
  cases h with
  | say hq hp ho => exact Player.exists_changes_say _ _ _ hq
  | elapse hq | link hq | follow hq => exact hquiet (.refl _) rfl (hput hq rfl)
  | letter hq | whole hq => exact hquiet (Stage.quiet_entry _ rfl) rfl (hput hq rfl)
  | offer hq => exact hquiet (Stage.quiet_entry _ rfl) rfl (hput hq rfl)
  | @tag q r r' c p s deed hq hp hstep hd hf =>
    have hstage := s.quiet_carryOut setting q.script.actions r'.clock c
    rw [hd] at hstage
    let p' := p.put { q with phase := .revealing { r' with clock := deed.clock } }
    have hfirst : (Front.of (p, s)).Changes (.of (p', deed.stage)) [] [] :=
      Front.changes_of_quiet hstage rfl (.inr (hput hq rfl))
    obtain ⟨themes, hfollow⟩ := p'.exists_changes_followUp deed.stage hf
    exact ⟨_, _, hfirst.trans hfollow⟩
  | @lastTag q r r' c p s deed hq hp hstep hd hf =>
    have hstage := s.quiet_carryOut setting q.script.actions r'.clock c
    rw [hd] at hstage
    exact hquiet hstage rfl (hput hq rfl)
  | choose | conclude => exact hquiet (.refl _) rfl rfl
  | @fire q a as g p s s' hq hp hf | @lastAction q a as g p s s' hq hp hf =>
    have hstage := s.quiet_fire setting q.script.actions a .nothing
    rw [hf] at hstage
    exact hquiet hstage rfl rfl
  | @request q a as g r p s s' hq hp hf hr =>
    have hstage := s.quiet_fire setting q.script.actions a .nothing
    rw [hf] at hstage
    obtain ⟨themes, hanswer⟩ := p.exists_changes_answer s' hr
    exact ⟨_, _, (Front.changes_of_quiet hstage rfl (.inr rfl)).trans hanswer⟩
  | note notes => exact hquiet (Stage.quiet_annotate _ notes) rfl rfl
  | obey => exact hquiet (Stage.quiet_of_eq rfl rfl) rfl rfl
  | finish hq => exact ⟨_, _, Player.changes_stop _ _ hq⟩

end Lead

/-- **A background conversation has nothing to do with the theme**, nor with the name on the main
text box. -/
theorem Ambient.Act.quiet {setting : Setting} {o : Operation} {a a' : Ambient} {m? : Option Moment}
    (h : Ambient.Act setting o a m? a') : a.stage.Quiet a'.stage := by
  cases h with
  | @say b x raw s hp ho => exact (s.quiet_read raw).trans (Stage.quiet_entry _ rfl)
  | elapse | hold => exact .refl _
  | letter | whole => exact Stage.quiet_entry _ rfl
  | @tag b r r' c s deed hp hstep hd hf =>
    have hstage := s.quiet_carryOut setting b.script.actions r'.clock c
    rw [hd] at hstage
    exact hstage.trans (deed.stage.quiet_defer _)
  | @lastTag b r r' c s deed hp hstep hd hf =>
    have hstage := s.quiet_carryOut setting b.script.actions r'.clock c
    rw [hd] at hstage
    exact hstage.trans (Stage.quiet_of_eq rfl rfl)
  | @link b x id d s hp ho hd => exact b.quiet_visit false s d
  | @finish b s why hp =>
    rw [Ambient.of, Background.finish_of_active hp]
    exact (s.quiet_entry rfl).trans (Stage.quiet_report _ rfl)

end Colloquy
