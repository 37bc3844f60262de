import Colloquy.Proofs.Playback.Routing
import Mathlib.Data.List.ReduceOption

/-!
# Proofs/Playback/Requests — what becomes of the requests that performers raise

Tags and fired actions raise requests (`Moment.raised?`). The player of the main conversation
answers those about itself on the spot, and each such answer is reported (`Request.answer?`); the
others are left for the session, which carries them out when the operation is done. A `Part` is what
one performer does in an operation, with the requests that it raises in it. Each thing that is done
accounts for its request (`Lead.Act.raises`, `Ambient.Act.raises`), so that the requests that are
pending in the end are those left in all parts together.

The session carries out no more than `requestLimit` of them, however they came about, though none of
them brings forth another (`Session.RoutedOnce`): what is raised side by side beyond that is lost
(`Session.Accounted`).
-/

namespace Colloquy

open Markup

/-! ## What is raised -/

/-- The request that firing an action raises. -/
def Action.raised? (accepts : String → Bool) (declared : List Action) (name : String)
    (supplied : Supplied) : Option Request :=
  (performNamed accepts declared name supplied).result.toOption.join

/-- The request that a command raises. -/
def Markup.Command.raised? (accepts : String → Bool) (declared : List Action) :
    Command → Option Request
  | .perform name supplied => Action.raised? accepts declared name supplied
  | .closeBackgroundConversations => some .closeBackgroundConversations
  | .startBackgroundConversation name => some (.startBackgroundConversation name)
  | _ => none

/-- The request that is raised in a moment. -/
def Moment.raised? (accepts : String → Bool) (declared : List Action) : Moment → Option Request
  | .tag c => c.raised? accepts declared
  | .fired name => Action.raised? accepts declared name .nothing
  | _ => none

/-- The requests that are raised in some moments. -/
def raisedIn (accepts : String → Bool) (declared : List Action) (ms : List Moment) :
    List Request :=
  ms.filterMap (·.raised? accepts declared)

theorem raisedIn_cons (accepts : String → Bool) (declared : List Action) (m? : Option Moment)
    (ks : List (Option Moment)) :
    raisedIn accepts declared (m? :: ks).reduceOption =
      (m?.bind (·.raised? accepts declared)).toList ++
        raisedIn accepts declared ks.reduceOption := by
  cases m? with
  | none => rfl
  | some m =>
    rw [List.reduceOption_cons_of_some, raisedIn, List.filterMap_cons, Option.bind_some]
    cases m.raised? accepts declared <;> rfl

/-- The report of the answer, where the player of a conversation of a name answers the request
itself. -/
def Request.answer? (name : String) : Request → Option Event
  | .closeConversation => some (.conversationEnded name)
  | .changeTheme theme => some (.themeChanged theme)
  | .startBackgroundConversation _ | .closeBackgroundConversations => none

/-- What one performer does in an operation. -/
structure Part where
  channel : Channel
  name : String
  declared : List Action
  moments : List Moment

namespace Part

/-- The requests raised in a part. -/
def raised (accepts : String → Bool) (t : Part) : List Request :=
  raisedIn accepts t.declared t.moments

/-- The report of the answer, where the performer answers a request itself. -/
def answer? (t : Part) (r : Request) : Option Event :=
  match t.channel with
  | .main => r.answer? t.name
  | .background _ => none

/-- The reports of the answers that the performer gives itself. -/
def answers (accepts : String → Bool) (t : Part) : List Event :=
  (t.raised accepts).filterMap t.answer?

/-- The requests that the performer leaves for others. -/
def left (accepts : String → Bool) (t : Part) : List Request :=
  (t.raised accepts).filter fun r => (t.answer? r).isNone

/-- Each request is answered or left. -/
theorem answered_or_left {accepts : String → Bool} {t : Part} {r : Request}
    (h : r ∈ t.raised accepts) :
    (∃ e, t.answer? r = some e ∧ e ∈ t.answers accepts) ∨ r ∈ t.left accepts := by
  cases ha : t.answer? r with
  | some e => exact .inl ⟨e, rfl, List.mem_filterMap.2 ⟨r, h, ha⟩⟩
  | none => exact .inr (List.mem_filter.2 ⟨h, by rw [ha]; rfl⟩)

end Part

/-! ## What a command leaves to do -/

/-- The request that is left to answer, if it is one. -/
def FollowUp.request? : FollowUp → Option Request
  | request r => some r
  | _ => none

namespace Stage

variable (s : Stage) (setting : Setting) (declared : List Action)

/-- What is left to do for a command is to answer the request that it raises. -/
theorem request?_carryOut (k : Clock) (c : Command) :
    (s.carryOut setting declared k c).followUp.request? = c.raised? setting.accepts declared := by
  cases c with
  | perform name supplied =>
    unfold carryOut Command.raised?
    dsimp only
    rw [show Action.raised? setting.accepts declared name supplied =
      (s.fire setting declared name supplied).1 from rfl]
    cases (s.fire setting declared name supplied).1 <;> rfl
  | changeSprite set sprite =>
    unfold carryOut
    dsimp only
    cases (s.portrait setting set sprite).1 <;> rfl
  | _ => rfl

theorem requests_carryOut (k : Clock) (c : Command) :
    (s.carryOut setting declared k c).stage.requests = s.requests := by
  cases c with
  | sendMessage target message =>
    unfold carryOut
    dsimp only
    split <;> rfl
  | _ => rfl

theorem events_carryOut (k : Clock) (c : Command) :
    (s.carryOut setting declared k c).stage.events = s.events := by
  cases c with
  | sendMessage target message =>
    unfold carryOut
    dsimp only
    split <;> rfl
  | _ => rfl

end Stage

/-- Firing an action does nothing on the stage but what is observed. -/
theorem Stage.of_fire {s s' : Stage} {setting : Setting} {declared : List Action} {name : String}
    {supplied : Supplied} {request? : Option Request}
    (h : s.fire setting declared name supplied = (request?, s')) :
    Action.raised? setting.accepts declared name supplied = request? ∧
      s'.requests = s.requests ∧ s'.events = s.events := by
  obtain ⟨rfl, rfl⟩ := Prod.mk.inj h
  exact ⟨rfl, rfl, rfl⟩

/-- What takes no account of the pending requests leaves them as they are. -/
theorem IgnoresQueue.requests {α : Type} {f : Stage → α × Stage} (h : IgnoresQueue f) (s : Stage) :
    (f s).2.requests = s.requests := by
  have := h s s.requests
  rw [show s.withQueue s.requests = s from rfl] at this
  rw [this]
  rfl

/-! ## The main performance -/

namespace Player

theorem events_introduce (setting : Setting) (d : Dialogue) (s : Stage) :
    (introduce setting d s).events = s.events := by
  unfold introduce portraitOf
  dsimp only
  split <;> rfl

theorem events_dress (p : Player) (d : Dialogue) (s : Stage) :
    s.events <+: (p.dress d s).2.events := by
  unfold dress
  split
  · split
    · exact List.prefix_rfl
    · exact List.prefix_append ..
  · exact List.prefix_rfl

theorem events_say (setting : Setting) (q : Performance) (raw : String) (p : Player) (s : Stage) :
    s.events <+: (p.say setting q raw s).2.events := by
  unfold say
  dsimp only
  split
  · exact p.events_dress q.dialogue s
  · rw [events_introduce]
    exact p.events_dress q.dialogue s

end Player

namespace Lead

/-- The report that is due, where the conversation is about to end because it asked for it. -/
def due (l : Lead) : List Event :=
  if l.cue? = some ⟨[], .ending .asked⟩ then
    (l.player.playing.map fun q => .conversationEnded q.name).toList
  else []

theorem due_eq_nil {l : Lead} (h : l.cue? ≠ some ⟨[], .ending .asked⟩) : l.due = [] := if_neg h

/-- The conversation that is performed, if any is, has this name and declares these actions. -/
def Performs (l : Lead) (name : String) (declared : List Action) : Prop :=
  ∀ q, l.player.playing = some q → q.name = name ∧ q.script.actions = declared

/-- From here to there, requests have been raised: each was answered, or is going to be before
anything else is done, or it has been left. -/
structure Raises (name : String) (l : Lead) (rs : List Request) (l' : Lead) : Prop where
  requests : l'.stage.requests = l.stage.requests ++ rs.filter fun r => (r.answer? name).isNone
  events : ∃ es, l'.stage.events = l.stage.events ++ es ∧
    (l.due ++ rs.filterMap (·.answer? name)).Sublist (es ++ l'.due)

/-- Nothing is raised, and what was due still is. -/
theorem Raises.same {name : String} {l l' : Lead} (hrequests : l'.stage.requests = l.stage.requests)
    (hevents : l'.stage.events = l.stage.events) (hdue : l'.due = l.due) :
    Raises name l [] l' := by
  refine ⟨hrequests.trans (List.append_nil _).symm, [], hevents.trans (List.append_nil _).symm, ?_⟩
  rw [List.filterMap_nil, List.append_nil, List.nil_append, hdue]

theorem Raises.trans {name : String} {l l' l'' : Lead} {rs rs' : List Request}
    (h : Raises name l rs l') (k : Raises name l' rs' l'') : Raises name l (rs ++ rs') l'' := by
  obtain ⟨es, hes, hdue⟩ := h.events
  obtain ⟨es', hes', hdue'⟩ := k.events
  refine ⟨?_, es ++ es', ?_, ?_⟩
  · rw [k.requests, h.requests, List.filter_append, List.append_assoc]
  · rw [hes', hes, List.append_assoc]
  · rw [List.filterMap_append, ← List.append_assoc, List.append_assoc es]
    refine (hdue.append (List.Sublist.refl _)).trans ?_
    rw [List.append_assoc]
    exact (List.Sublist.refl es).append hdue'

/-- Nothing is raised, and nothing was due. -/
theorem Raises.quiet {name : String} {l l' : Lead} (hdue : l.due = [])
    (hrequests : l'.stage.requests = l.stage.requests)
    (hevents : l.stage.events <+: l'.stage.events) : Raises name l [] l' := by
  obtain ⟨es, hes⟩ := hevents
  refine ⟨?_, es, hes.symm, ?_⟩
  · rw [hrequests, List.filter_nil, List.append_nil]
  · rw [hdue]
    exact List.nil_sublist _

/-- A request is raised that does not end the conversation, and the player answers it. -/
theorem Raises.answer {name : String} {l : Lead} {cue? : Option Cue} {p : Player} {r : Request}
    {s : Stage} (hdue : l.due = []) (hrequests : s.requests = l.stage.requests)
    (hevents : s.events = l.stage.events) (hr : r ≠ .closeConversation) :
    Raises name l [r] (.of cue? (p.answer r s)) := by
  cases r with
  | closeConversation => exact absurd rfl hr
  | changeTheme theme =>
    refine ⟨?_, [.themeChanged theme], congrArg (· ++ _) hevents, ?_⟩
    · exact hrequests.trans (List.append_nil _).symm
    · rw [hdue]
      exact List.sublist_append_left ..
  | startBackgroundConversation _ | closeBackgroundConversations =>
    refine ⟨congrArg (· ++ _) hrequests, [], ?_, ?_⟩
    · exact hevents.trans (List.append_nil _).symm
    · rw [hdue]
      exact List.nil_sublist _

/-- The same for what is left to do for a command, which may be something else. -/
theorem Raises.followUp {name : String} {l : Lead} {cue? : Option Cue} {p : Player} {f : FollowUp}
    {s : Stage} (hdue : l.due = []) (hrequests : s.requests = l.stage.requests)
    (hevents : s.events = l.stage.events) (hf : f ≠ .request .closeConversation) :
    Raises name l f.request?.toList (.of cue? (p.followUp s f)) := by
  cases f with
  | request r => exact .answer hdue hrequests hevents fun hr => hf (hr ▸ rfl)
  | done | portrait image? => exact .quiet hdue hrequests (hevents ▸ List.prefix_rfl)
  | theme theme => exact .quiet hdue hrequests (hevents ▸ List.prefix_append ..)

/-- The request to end is raised, and the conversation is to end at once. -/
theorem Raises.last {name : String} {l : Lead} {q : Performance} {p : Player} {s : Stage}
    (hdue : l.due = []) (hrequests : s.requests = l.stage.requests)
    (hevents : s.events = l.stage.events) (hq : p.playing = some q) (hname : q.name = name) :
    Raises name l [.closeConversation] ⟨p, some ⟨[], .ending .asked⟩, s⟩ := by
  refine ⟨?_, [], ?_, ?_⟩
  · exact hrequests.trans (List.append_nil _).symm
  · exact hevents.trans (List.append_nil _).symm
  · rw [hdue, due, if_pos rfl, hq, ← hname]
    exact List.Sublist.refl _

variable {setting : Setting} {o : Operation}

/-- **Each thing that is done accounts for the request that it raises.** -/
theorem Act.raises {l l' : Lead} {m? : Option Moment} (h : Act setting o l m? l')
    {name : String} {declared : List Action} (hl : l.Performs name declared)
    (hclose : .closeConversation ∉ l.stage.requests) :
    Raises name l (m?.bind (·.raised? setting.accepts declared)).toList l' := by
  cases h with
  | @say q raw p s hq hp ho =>
    exact .quiet (due_eq_nil (by simp)) ((p.ignoresQueue_say setting q raw).requests s)
      (p.events_say setting q raw s)
  | elapse | letter | whole | link | offer | choose | conclude | follow =>
    exact .quiet (due_eq_nil (by simp)) rfl List.prefix_rfl
  | @tag q r r' c p s deed hq hp hstep hd hf =>
    obtain ⟨-, rfl⟩ := hl q hq
    rw [Option.bind_some, Moment.raised?, ← s.request?_carryOut setting _ r'.clock c, hd]
    refine .followUp (due_eq_nil (by simp)) ?_ ?_ hf
    · rw [← hd, s.requests_carryOut]
    · rw [← hd, s.events_carryOut]
  | @lastTag q r r' c p s deed hq hp hstep hd hf =>
    obtain ⟨hname, rfl⟩ := hl q hq
    rw [Option.bind_some, Moment.raised?, ← s.request?_carryOut setting _ r'.clock c, hd, hf]
    refine .last (due_eq_nil (by simp)) ?_ ?_ rfl hname
    · rw [← hd, s.requests_carryOut]
    · rw [← hd, s.events_carryOut]
  | @fire q a as g p s s' hq hp hf =>
    obtain ⟨-, rfl⟩ := hl q hq
    obtain ⟨hraised, hrequests, hevents⟩ := Stage.of_fire hf
    rw [Option.bind_some, Moment.raised?, hraised]
    exact .quiet (due_eq_nil (by simp)) hrequests (hevents ▸ List.prefix_rfl)
  | @request q a as g r p s s' hq hp hf hr =>
    obtain ⟨-, rfl⟩ := hl q hq
    obtain ⟨hraised, hrequests, hevents⟩ := Stage.of_fire hf
    rw [Option.bind_some, Moment.raised?, hraised]
    exact .answer (due_eq_nil (by simp)) hrequests hevents hr
  | @lastAction q a as g p s s' hq hp hf =>
    obtain ⟨hname, rfl⟩ := hl q hq
    obtain ⟨hraised, hrequests, hevents⟩ := Stage.of_fire hf
    rw [Option.bind_some, Moment.raised?, hraised]
    exact .last (due_eq_nil (by simp)) hrequests hevents hq hname
  | note notes => exact .same rfl rfl rfl
  | @obey q rest p s hq hr =>
    refine absurd ?_ hclose
    rw [hr]
    exact List.mem_cons_self ..
  | @finish q why p s hq =>
    rw [Player.stop_of_playing hq]
    refine ⟨(List.append_nil _).symm, [.conversationEnded q.name], rfl, ?_⟩
    change (due _ ++ []).Sublist _
    rw [List.append_nil, due, hq]
    split
    · exact List.Sublist.refl _
    · exact List.nil_sublist _

/-- The same conversation goes on, until it ends. -/
theorem Act.performs {l l' : Lead} {m? : Option Moment} (h : Act setting o l m? l')
    {name : String} {declared : List Action} (hl : l.Performs name declared) :
    l'.Performs name declared := by
  intro r hr
  cases h with
  | say hq hp ho =>
    rw [Lead.of, Player.playing_say] at hr
    cases hr
    have hsame := hl _ hq
    exact hsame
  | elapse hq | letter hq | lastTag hq | whole hq | offer hq | link hq | follow hq =>
    cases hr
    have hsame := hl _ hq
    exact hsame
  | tag hq hp hstep hd hf =>
    rw [Lead.of, Player.playing_followUp hf] at hr
    cases hr
    have hsame := hl _ hq
    exact hsame
  | choose | conclude | fire | lastAction | note | obey => exact hl r hr
  | request hq hp hf hc =>
    rw [Lead.of, Player.playing_answer hc] at hr
    exact hl r hr
  | finish hq =>
    rw [Lead.of, Player.stop_of_playing hq] at hr
    cases hr

/-- Whatever is done one by one accounts for the requests that it raises. -/
theorem raises_of_path {l l' : Lead} {ks : List (Option Moment)}
    (h : Path (Act setting o) l ks l') {name : String} {declared : List Action} :
    l.Performs name declared → .closeConversation ∉ l.stage.requests →
      Raises name l (raisedIn setting.accepts declared ks.reduceOption) l' := by
  induction h with
  | refl => exact fun _ _ => .same rfl rfl rfl
  | @cons l l₁ l' m? ks h _ ih =>
    intro hl hclose
    have hfirst := h.raises hl hclose
    rw [raisedIn_cons]
    refine hfirst.trans (ih (h.performs hl) ?_)
    -- what a player leaves for others is never the request to end
    rw [hfirst.requests, List.mem_append, not_or]
    refine ⟨hclose, fun hmem => ?_⟩
    cases (List.mem_filter.1 hmem).2

end Lead

/-! ## Background conversations -/

theorem Stage.requests_defer (s : Stage) (f : FollowUp) :
    (s.defer f).requests = s.requests ++ f.request?.toList := by
  cases f with
  | request r => rfl
  | _ => exact (List.append_nil _).symm

theorem Stage.events_defer (s : Stage) (f : FollowUp) : (s.defer f).events = s.events := by
  cases f <;> rfl

theorem Background.events_visit (first : Bool) (b : Background) (s : Stage) (d : Dialogue) :
    (b.visit first s d).2.events = s.events := by
  unfold visit
  dsimp only
  split
  · split <;> rfl
  · rfl

namespace Ambient

variable {setting : Setting} {o : Operation}

/-- From here to there, requests have been raised and left. -/
structure Raises (a : Ambient) (rs : List Request) (a' : Ambient) : Prop where
  script : a'.background.script = a.background.script
  requests : a'.stage.requests = a.stage.requests ++ rs
  events : a.stage.events <+: a'.stage.events

/-- **Each thing that is done leaves the request that it raises.** -/
theorem Act.raises {a a' : Ambient} {m? : Option Moment} (h : Act setting o a m? a') :
    Raises a (m?.bind (·.raised? setting.accepts a.background.script.actions)).toList a' := by
  cases h with
  | say | elapse | hold | letter | whole =>
    exact ⟨rfl, (List.append_nil _).symm, List.prefix_rfl⟩
  | @tag b r r' c s deed hp hstep hd hf =>
    rw [Option.bind_some, Moment.raised?, ← s.request?_carryOut setting _ r'.clock c, hd]
    have hevents : (deed.stage.defer deed.followUp).events = s.events := by
      rw [Stage.events_defer, ← hd, s.events_carryOut]
    refine ⟨rfl, ?_, hevents ▸ List.prefix_rfl⟩
    rw [Stage.requests_defer, ← hd, s.requests_carryOut]
  | @lastTag b r r' c s deed hp hstep hd hf =>
    rw [Option.bind_some, Moment.raised?, ← s.request?_carryOut setting _ r'.clock c, hd, hf]
    refine ⟨rfl, ?_, ?_⟩
    · exact congrArg (· ++ _) (hd ▸ s.requests_carryOut setting _ r'.clock c)
    · exact hd ▸ s.events_carryOut setting _ r'.clock c ▸ List.prefix_rfl
  | @link b x id d s hp ho hd =>
    obtain ⟨anchor, moved, hv⟩ := b.visit_fst false s d
    have hevents : (b.visit false s d).2.events = s.events := b.events_visit false s d
    refine ⟨?_, ?_, hevents.symm ▸ List.prefix_rfl⟩
    · rw [of, hv]
    · exact ((b.ignoresQueue_visit false d).requests s).trans (List.append_nil _).symm
  | @finish b s why hp =>
    rw [Background.finish_of_active hp]
    exact ⟨rfl, (List.append_nil _).symm, List.prefix_append ..⟩

/-- Whatever is done one by one leaves the requests that it raises. -/
theorem raises_of_path {a a' : Ambient} {ks : List (Option Moment)}
    (h : Path (Act setting o) a ks a') :
    Raises a (raisedIn setting.accepts a.background.script.actions ks.reduceOption) a' := by
  induction h with
  | refl => exact ⟨rfl, (List.append_nil _).symm, List.prefix_rfl⟩
  | cons h _ ih =>
    have hfirst := h.raises
    rw [raisedIn_cons]
    rw [hfirst.script] at ih
    refine ⟨ih.script.trans hfirst.script, ?_, hfirst.events.trans ih.events⟩
    rw [ih.requests, hfirst.requests, List.append_assoc]

end Ambient

/-! ## The parts of an operation -/

/-- What the player does. -/
def Player.part (p : Player) (ks : List (Option Moment)) : Part where
  channel := .main
  name := (p.playing.map (·.name)).getD ""
  declared := (p.playing.map (·.script.actions)).getD []
  moments := ks.reduceOption

/-- What a background conversation does. -/
def Background.part (b : Background) (ks : List (Option Moment)) : Part where
  channel := b.channel
  name := b.name
  declared := b.script.actions
  moments := ks.reduceOption

theorem Background.left_part (accepts : String → Bool) (b : Background)
    (ks : List (Option Moment)) :
    (b.part ks).left accepts = raisedIn accepts b.script.actions ks.reduceOption :=
  List.filter_eq_self.2 fun _ _ => rfl

theorem Background.answers_part (accepts : String → Bool) (b : Background)
    (ks : List (Option Moment)) : (b.part ks).answers accepts = [] :=
  List.filterMap_eq_nil_iff.2 fun _ _ => rfl

/-- The conversation that is performed is the one of the part. -/
theorem Player.performs_part (p : Player) (cue? : Option Cue) (s : Stage)
    (ks : List (Option Moment)) :
    Lead.Performs ⟨p, cue?, s⟩ (p.part ks).name (p.part ks).declared := by
  intro q hq
  have hq' : p.playing = some q := hq
  simp only [part, hq', Option.map_some, Option.getD_some, and_self]

/-- Background conversations take turns, each of which is a part. Those that are over are left
out. -/
inductive Turns (setting : Setting) (o : Operation) :
    List Background → Stage → List Part → List Background → Stage → Prop
  | nil {s : Stage} : Turns setting o [] s [] [] s
  | cons {b b' : Background} {bs bs' : List Background} {s s' s'' : Stage}
    {ks : List (Option Moment)} {parts : List Part}
    (h : Path (Ambient.Act setting o) ⟨b, s⟩ ks ⟨b', s'⟩)
    (k : Turns setting o bs s' parts bs' s'') :
    Turns setting o (b :: bs) s (b.part ks :: parts) (if b'.isFinished then bs' else b' :: bs') s''

theorem exists_turns {setting : Setting} {o : Operation} {dt : Single} (ho : o = .tick dt)
    (bs : List Background) :
    ∀ {s : Stage}, (∀ b ∈ bs, b.Sound) →
      ∃ parts, Turns setting o bs s parts (Session.tickAll setting dt bs s).1
        (Session.tickAll setting dt bs s).2 := by
  induction bs with
  | nil => exact fun _ => ⟨[], .nil⟩
  | cons b bs ih =>
    intro s hbs
    obtain ⟨hb, hbs⟩ := List.forall_mem_cons.1 hbs
    have hreaches : Reaches (Ambient.Act setting o) ⟨b, s⟩ (.of (b.tick setting dt s)) :=
      Ambient.reaches_tick hb ho s
    obtain ⟨ks, hks⟩ := hreaches
    obtain ⟨parts, hparts⟩ := ih (s := (b.tick setting dt s).2) hbs
    exact ⟨_, .cons hks hparts⟩

/-- All that background conversations raise in their turns is left. -/
theorem Turns.requests {setting : Setting} {o : Operation} {bs bs' : List Background}
    {s s' : Stage} {parts : List Part} (h : Turns setting o bs s parts bs' s') :
    s'.requests = s.requests ++ parts.flatMap (·.left setting.accepts) ∧
      s.events <+: s'.events ∧ parts.flatMap (·.answers setting.accepts) = [] := by
  induction h with
  | nil => exact ⟨(List.append_nil _).symm, List.prefix_rfl, rfl⟩
  | @cons b b' bs bs' s s' s'' ks parts h _ ih =>
    have hturn := Ambient.raises_of_path h
    obtain ⟨hrequests, hevents, hanswers⟩ := ih
    refine ⟨?_, hturn.events.trans hevents, ?_⟩
    · rw [hrequests, hturn.requests, List.flatMap_cons, b.left_part, List.append_assoc]
    · rw [List.flatMap_cons, b.answers_part, hanswers, List.append_nil]

namespace Session

/-- What a game asks for to make performers go on. -/
inductive Prompt
  | next
  | select (index : Nat)
  | tick (dt : Single)

/-- The operation that a prompt is. -/
def Prompt.operation : Prompt → Operation
  | next => .next
  | select index => .select index
  | tick dt => .tick dt

/-- The parts that performers play when they are prompted: the player first, and if time passes the
background conversations after it. -/
inductive Enacts (x : Session) : Prompt → List Part → Session → Prop
  | next {ks : List (Option Moment)} {p : Player} {s : Stage}
    (h : Path (Lead.Act x.setting .next) ⟨x.player, x.player.cueFor .next, x.stage⟩ ks
      ⟨p, none, s⟩) :
    Enacts x .next [x.player.part ks] (x.withPlayer (p, s))
  | select {index : Nat} {ks : List (Option Moment)} {p : Player} {s : Stage}
    (h : Path (Lead.Act x.setting (.select index))
      ⟨x.player, x.player.cueFor (.select index), x.stage⟩ ks ⟨p, none, s⟩) :
    Enacts x (.select index) [x.player.part ks] (x.withPlayer (p, s))
  | tick {dt : Single} {ks : List (Option Moment)} {p : Player} {s s' : Stage} {parts : List Part}
    {bs : List Background}
    (h : Path (Lead.Act x.setting (.tick dt)) ⟨x.player, none, x.stage⟩ ks ⟨p, none, s⟩)
    (k : Turns x.setting (.tick dt) x.background s parts bs s') :
    Enacts x (.tick dt) (x.player.part ks :: parts)
      { x with player := p, background := bs, stage := s' }

theorem exists_enacts {x : Session} (hplaying : ∀ q, x.player.playing = some q → q.Sound)
    (hbackground : ∀ b ∈ x.background, b.Sound) (u : Prompt) :
    ∃ parts, x.Enacts u parts (x.attempt u.operation) := by
  cases u with
  | next =>
    have hreaches : Reaches (Lead.Act x.setting .next) _ _ :=
      Lead.reaches_next hplaying (s := x.stage)
    obtain ⟨ks, hks⟩ := hreaches
    exact ⟨_, .next hks⟩
  | select index =>
    have hreaches : Reaches (Lead.Act x.setting (.select index)) _ _ :=
      Lead.reaches_select hplaying index (s := x.stage)
    obtain ⟨ks, hks⟩ := hreaches
    exact ⟨_, .select hks⟩
  | tick dt =>
    have hreaches : Reaches (Lead.Act x.setting (.tick dt)) _ _ :=
      Lead.reaches_tick hplaying (s := x.stage) rfl
    obtain ⟨ks, hks⟩ := hreaches
    obtain ⟨parts, hparts⟩ := exists_turns rfl x.background hbackground
    exact ⟨_, .tick hks hparts⟩

/-- What becomes of the requests that performers raise in their parts. -/
structure Accounted (x : Session) (u : Prompt) (parts : List Part) : Prop where
  enacts : x.Enacts u parts (x.attempt u.operation)
  /-- What the player answers itself has been answered, request by request. -/
  answers : ∃ es, (x.attempt u.operation).stage.events = x.stage.events ++ es ∧
    (parts.flatMap (·.answers x.setting.accepts)).Sublist es
  /-- The others are pending, in the order in which they were raised. -/
  requests : (x.attempt u.operation).stage.requests = parts.flatMap (·.left x.setting.accepts)
  /-- All of these are carried out unless they are too many. -/
  perform_of_le : (parts.flatMap (·.left x.setting.accepts)).length ≤ requestLimit →
    x.perform u.operation =
      (x.attempt u.operation).carryOutAll (parts.flatMap (·.left x.setting.accepts))
  /-- Of too many, those beyond the limit are lost. -/
  perform_of_lt : requestLimit < (parts.flatMap (·.left x.setting.accepts)).length →
    x.perform u.operation = ((x.attempt u.operation).carryOutAll
      ((parts.flatMap (·.left x.setting.accepts)).take requestLimit)).giveUp

/-- What the player does accounts for what it raises. -/
theorem account_of_path {setting : Setting} {o : Operation} {p p' : Player} {cue? : Option Cue}
    {s s' : Stage} {ks : List (Option Moment)}
    (h : Path (Lead.Act setting o) ⟨p, cue?, s⟩ ks ⟨p', none, s'⟩)
    (hs : s.requests = []) :
    s'.requests = (p.part ks).left setting.accepts ∧
      ∃ es, s'.events = s.events ++ es ∧ ((p.part ks).answers setting.accepts).Sublist es := by
  have hclose : Request.closeConversation ∉ s.requests := by
    rw [hs]
    exact List.not_mem_nil
  have hraises := Lead.raises_of_path h (p.performs_part cue? s ks) hclose
  obtain ⟨es, hes, hdue⟩ := hraises.events
  refine ⟨?_, es, hes, ?_⟩
  · have := hraises.requests
    rwa [show Lead.stage ⟨p, cue?, s⟩ = s from rfl, hs, List.nil_append] at this
  · have hnone : Lead.due ⟨p', none, s'⟩ = [] := rfl
    rw [hnone, List.append_nil] at hdue
    exact (List.sublist_append_right ..).trans hdue

/-- The parts that are played account for what is pending then, and for what has been answered. -/
theorem Enacts.account {x y : Session} {u : Prompt} {parts : List Part} (h : x.Enacts u parts y)
    (hx : x.stage.requests = []) :
    (∃ es, y.stage.events = x.stage.events ++ es ∧
        (parts.flatMap (·.answers x.setting.accepts)).Sublist es) ∧
      y.stage.requests = parts.flatMap (·.left x.setting.accepts) := by
  cases h with
  | next h | select h =>
    obtain ⟨hrequests, hevents⟩ := account_of_path h hx
    simp only [List.flatMap_singleton]
    exact ⟨hevents, hrequests⟩
  | tick h k =>
    obtain ⟨hrequests, es, hes, hanswers⟩ := account_of_path h hx
    obtain ⟨hturns, ⟨es', hes'⟩, hnone⟩ := k.requests
    rw [List.flatMap_cons, List.flatMap_cons, hnone, List.append_nil]
    refine ⟨⟨es ++ es', ?_, hanswers.trans (List.sublist_append_left ..)⟩, ?_⟩
    · exact hes'.symm.trans (by rw [hes, List.append_assoc])
    · exact hturns.trans (by rw [hrequests])

/-- Each request that performers raise is answered or left, and what is left is carried out, up to a
number. -/
theorem exists_accounted {x : Session} (hx : x.stage.requests = []) (hl : x.library.Sound)
    (hplaying : ∀ q, x.player.playing = some q → q.Sound)
    (hbackground : ∀ b ∈ x.background, b.Sound) (u : Prompt) : ∃ parts, x.Accounted u parts := by
  obtain ⟨parts, henacts⟩ := exists_enacts hplaying hbackground u
  obtain ⟨hanswers, hrequests⟩ := henacts.account hx
  have hrouted := routedOnce hl hx u.operation
  refine ⟨parts, henacts, hanswers, hrequests, ?_, ?_⟩
  · rw [← hrequests]
    exact hrouted.perform_of_le
  · rw [← hrequests]
    exact hrouted.perform_of_lt

end Session

namespace Playback

/-- **Every request is answered by the player or carried out by the session, as long as no more than
`requestLimit` of them are left for the session**, whatever conversations are stored, however the
variables stand and whatever operations a game has asked for before. -/
theorem accounted_run (entries : List (String × Conversation)) (setting : Setting)
    (vars : Variables) (os : List Operation) (u : Session.Prompt) :
    ∃ parts, ((Playback.new (.stocked entries) setting vars).run os).session.Accounted u parts := by
  have hx : (Scene.of (.new (.stocked entries) setting vars)).Sound :=
    Scene.sound_new (Library.sound_stocked entries) setting vars
  obtain ⟨hsound, hnone⟩ := sound_and_settled_run os hx rfl
  exact Session.exists_accounted hnone hsound.library hsound.playing hsound.background u

end Playback

/-! ## Too many at a time -/

namespace Conversation

/-- A conversation at the end of which the others are asked to be quiet, any number of times, and
then the crowd is asked to talk. -/
def farewell (times : Nat) : Conversation where
  dialogues := [{ id := 0, sentences := ["x"], startingPoint := true,
                  onFinished := List.replicate times "hush" ++ ["talk"] }]
  actions := [⟨"hush", "CloseBackgroundConversations", none, none⟩,
    ⟨"talk", "StartBackgroundConversation", some "crowd", none⟩]

/-- The talk of the crowd. -/
def crowd : Conversation where
  dialogues := [{ id := 0, sentences := ["y"], startingPoint := true }]
  background := true

end Conversation

/-- A session at the end of a farewell, but for what is done then. -/
def Session.atFarewell (times : Nat) : Session :=
  let library := Library.stocked [("farewell", .farewell times), ("crowd", .crowd)]
  ((Playback.new library ⟨{}, default, fun _ => false⟩ .empty).run
    [.start "farewell", .tick (.ofRatio false 100 1)]).session

/-- The crowd does not talk where it is asked to after as many other requests as are carried out at
most, though it would if that request were carried out. -/
theorem Session.crowd_silent_atFarewell :
    let x := atFarewell 64
    let requests := List.replicate 64 .closeBackgroundConversations ++
      [.startBackgroundConversation "crowd"]
    (x.attempt .next).stage.requests = requests ∧
      ((x.attempt .next).carryOutAll requests).background.map (·.name) = ["crowd"] ∧
      (x.perform .next).background.map (·.name) = [] := by
  decide +kernel

end Colloquy
