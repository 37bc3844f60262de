import Colloquy.Proofs.Playback.Moment
import Colloquy.Stage

/-!
# Proofs/Playback/Calls — what a moment puts on a text box, and what it does to the game

Of a trace only some entries are calls: those that put something on a text box, and the deeds of a
script, messages and log lines. The others are asides. Of the events those are announcements that
tell of a beginning or an end. `Stage.Adds` says which calls and which announcements have been added
to a stage, and `Moment.Presents` which ones belong to a moment. Most of what is done on a stage
adds none (`Stage.same_read`), and a command adds only deeds (`Stage.acts_carryOut`).
-/

namespace Colloquy

open Markup

namespace Entry

/-- Whether an entry is a deed of a script: a message or a log line. -/
def isDeed : Entry → Bool
  | deliver .. | log .. => true
  | _ => false

/-- Whether an entry puts something on a text box. -/
def isOnBox : Entry → Bool
  | sentence .. | reveal _ | revealed _ | speaker .. | options _ | portrait .. | anchor ..
  | close _ => true
  | _ => false

/-- Whether an entry is a call. -/
def isCall (e : Entry) : Bool := e.isOnBox || e.isDeed

/-- Whether an entry is an aside: a note, or a change of a variable. -/
def isAside : Entry → Bool
  | change .. | note _ => true
  | _ => false

/-- The text box that an entry puts something on. -/
def channel? : Entry → Option Channel
  | sentence c .. | reveal c | revealed c | speaker c _ | portrait c _ | anchor c _ | close c =>
    some c
  | options _ => some .main
  | _ => none

theorem isCall_of_isAside {e : Entry} (h : e.isAside = true) : e.isCall = false := by
  cases e with
  | change | note => rfl
  | _ => cases h

theorem isOnBox_of_isDeed_or_isAside {e : Entry} (h : e.isDeed = true ∨ e.isAside = true) :
    e.isOnBox = false := by
  cases e with
  | deliver | log | change | note => rfl
  | _ => rcases h with h | h <;> cases h

theorem isCall_of_channel? {e : Entry} {c : Channel} (h : e.channel? = some c) :
    e.isCall = true := by
  cases e with
  | theme | deliver | change | log | note => cases h
  | _ => rfl

end Entry

/-- Whether an event tells of a beginning or an end. -/
def Event.isAnnouncement : Event → Bool
  | themeChanged _ => false
  | _ => true

/-- The calls of a trace. -/
def callsOf (t : Trace) : Trace := t.filter (·.isCall)

/-- The announcements among some events. -/
def announced (es : List Event) : List Event := es.filter (·.isAnnouncement)

@[simp] theorem callsOf_append (t u : Trace) : callsOf (t ++ u) = callsOf t ++ callsOf u :=
  List.filter_append ..

@[simp] theorem announced_append (es fs : List Event) :
    announced (es ++ fs) = announced es ++ announced fs := List.filter_append ..

/-- The calls of entries that are all calls. -/
theorem callsOf_eq_self {t : Trace} (h : ∀ e ∈ t, e.isCall = true) : callsOf t = t :=
  List.filter_eq_self.2 h

/-- Asides are no calls. -/
theorem callsOf_eq_nil {t : Trace} (h : ∀ e ∈ t, e.isAside = true) : callsOf t = [] :=
  List.filter_eq_nil_iff.2 fun e he => by rw [Entry.isCall_of_isAside (h e he)]; simp

theorem isAside_of_mem_notes {notes : List Note} {e : Entry} (h : e ∈ notes.map .note) :
    e.isAside = true := by
  obtain ⟨n, -, rfl⟩ := List.mem_map.1 h
  rfl

theorem isAside_of_mem_note {n : Note} {e : Entry} (h : e ∈ [.note n]) : e.isAside = true := by
  rw [List.mem_singleton.1 h]
  rfl

theorem isAside_of_mem_announce {vars : Variables} {c : Change} {e : Entry}
    (h : e ∈ vars.announce c) : e.isAside = true := by
  obtain ⟨i, -, rfl⟩ := List.mem_map.1 h
  rfl

/-! ## Variables and sentences -/

theorem isAside_of_mem_registerText {vars : Variables} {name raw : String} {kind : Kind} {e : Entry}
    (h : e ∈ (vars.registerText name raw kind).trace) : e.isAside = true := by
  unfold Variables.registerText at h
  split at h
  · exact isAside_of_mem_announce h
  · exact isAside_of_mem_note h

theorem isAside_of_mem_remove {vars : Variables} {name : String} {e : Entry}
    (h : e ∈ (vars.remove name).trace) : e.isAside = true := by
  unfold Variables.remove at h
  split at h
  · exact isAside_of_mem_announce h
  · exact isAside_of_mem_note h

namespace Markup

variable {vars : Variables} {e : Entry}

theorem isAside_of_mem_apply {k : Keyword} {word value : String}
    (h : e ∈ (k.apply word value vars).trace) : e.isAside = true := by
  cases k with
  | timed t =>
    rw [Keyword.apply] at h
    split at h
    · cases h
    · exact isAside_of_mem_note h
  | retrieve kind => exact isAside_of_mem_notes h
  | _ => cases h

theorem isAside_of_mem_readOpening {body : List Char} (h : e ∈ (readOpening body vars).trace) :
    e.isAside = true := by
  unfold readOpening at h
  dsimp only at h
  split at h
  · cases h
  · cases h
  · split at h
    · exact isAside_of_mem_note h
    · exact isAside_of_mem_apply h
  · exact isAside_of_mem_note h

theorem isAside_of_mem_readGroup {body : List Char} (h : e ∈ (readGroup body vars).trace) :
    e.isAside = true := by
  unfold readGroup at h
  split at h
  · split at h
    · exact isAside_of_mem_note h
    · cases h
  · exact isAside_of_mem_readOpening h

theorem isAside_of_mem_close {o : Opened} (h : e ∈ (o.close vars).trace) : e.isAside = true := by
  unfold Opened.close at h
  split at h
  · cases h
  · exact isAside_of_mem_registerText h

theorem isAside_of_mem_readToken {here : Standing} {t : Token}
    (h : e ∈ (readToken here t).trace) : e.isAside = true := by
  unfold readToken at h
  split at h
  · cases t with
    | letter c => cases h
    | group body => exact isAside_of_mem_readGroup h
  · cases t with
    | letter c => cases h
    | group body =>
      dsimp only at h
      split at h
      · exact isAside_of_mem_close h
      · cases h

/-- Nothing but asides is observed in reading a sentence. -/
theorem isAside_of_mem_ofTokens (ts : List Token) :
    ∀ here : Standing, ∀ e ∈ (Reading.ofTokens here ts).trace, e.isAside = true := by
  induction ts with
  | nil =>
    intro here e h
    rw [Reading.ofTokens] at h
    split at h
    · cases h
    · exact isAside_of_mem_note h
  | cons t ts ih =>
    intro here e h
    rw [Reading.ofTokens] at h
    rcases List.mem_append.1 h with h | h
    · exact isAside_of_mem_readToken h
    · exact ih _ e h

end Markup

/-! ## Actions -/

namespace Action

variable {accepts : String → Bool} {e : Entry}

theorem isDeed_or_isAside_of_mem_deliver {target message : String}
    (h : e ∈ deliver accepts target message) : e.isDeed = true ∨ e.isAside = true := by
  rcases List.mem_cons.1 h with rfl | h
  · exact .inl rfl
  · split at h
    · cases h
    · exact .inr (isAside_of_mem_note h)

theorem isDeed_or_isAside_of_mem_perform {a : Action} (h : e ∈ (a.perform accepts).trace) :
    e.isDeed = true ∨ e.isAside = true := by
  unfold perform at h
  dsimp only at h
  split at h
  · exact .inr (isAside_of_mem_note h)
  · obtain rfl := List.mem_singleton.1 h
    exact .inl rfl
  · exact isDeed_or_isAside_of_mem_deliver h
  all_goals cases h

/-- An action is observed by its deeds, and asides. -/
theorem isDeed_or_isAside_of_mem_performNamed {declared : List Action} {name : String}
    {supplied : Supplied} (h : e ∈ (performNamed accepts declared name supplied).trace) :
    e.isDeed = true ∨ e.isAside = true := by
  unfold performNamed at h
  split at h
  · exact isDeed_or_isAside_of_mem_perform h
  · exact .inr (isAside_of_mem_note h)

end Action

/-- The calls among deeds and asides are the deeds. -/
theorem isDeed_of_mem_callsOf {t : Trace} (h : ∀ e ∈ t, e.isDeed = true ∨ e.isAside = true) :
    ∀ e ∈ callsOf t, e.isDeed = true := by
  intro e he
  obtain ⟨het, hcall⟩ := List.mem_filter.1 he
  rwa [Entry.isCall, Entry.isOnBox_of_isDeed_or_isAside (h e het), Bool.false_or] at hcall

/-! ## What has been added to a stage -/

/-- Some calls and some announcements have been added to a stage, and else only asides. -/
structure Stage.Adds (s s' : Stage) (calls : Trace) (es : List Event) : Prop where
  callsOf_trace : callsOf s'.trace = callsOf s.trace ++ calls
  announced_events : announced s'.events = announced s.events ++ es

namespace Stage

theorem Adds.refl (s : Stage) : s.Adds s [] [] :=
  ⟨(List.append_nil _).symm, (List.append_nil _).symm⟩

theorem Adds.trans {s t u : Stage} {c d : Trace} {es fs : List Event} (h : s.Adds t c es)
    (k : t.Adds u d fs) : s.Adds u (c ++ d) (es ++ fs) :=
  ⟨by rw [k.callsOf_trace, h.callsOf_trace, List.append_assoc],
    by rw [k.announced_events, h.announced_events, List.append_assoc]⟩

/-- Nothing has been added but asides. -/
def Same (s s' : Stage) : Prop := s.Adds s' [] []

theorem Same.refl (s : Stage) : s.Same s := Adds.refl s

theorem Same.trans {s t u : Stage} (h : s.Same t) (k : t.Same u) : s.Same u := Adds.trans h k

theorem Same.adds {s t u : Stage} {c : Trace} {es : List Event} (h : s.Same t)
    (k : t.Adds u c es) : s.Adds u c es := Adds.trans h k

theorem Adds.same {s t u : Stage} {c : Trace} {es : List Event} (h : s.Adds t c es)
    (k : t.Same u) : s.Adds u c es := by
  have := h.trans k
  rwa [List.append_nil, List.append_nil] at this

theorem adds_observe (s : Stage) (t : Trace) : s.Adds (s.observe t) (callsOf t) [] :=
  ⟨callsOf_append .., (List.append_nil _).symm⟩

/-- What is observed is called, if it is put on a text box. -/
theorem adds_observe_of_onBox (s : Stage) {t : Trace} (h : ∀ e ∈ t, e.isOnBox = true) :
    s.Adds (s.observe t) t [] := by
  have := s.adds_observe t
  rwa [callsOf_eq_self fun e he => by rw [Entry.isCall, h e he, Bool.true_or]] at this

theorem same_annotate (s : Stage) (notes : List Note) : s.Same (s.annotate notes) := by
  have := s.adds_observe (notes.map .note)
  rwa [callsOf_eq_nil fun _ => isAside_of_mem_notes] at this

theorem adds_report (s : Stage) (e : Event) : s.Adds (s.report e) [] (announced [e]) :=
  ⟨(List.append_nil _).symm, announced_append ..⟩

/-- Requests are not observed. -/
theorem same_requests (s : Stage) (requests : List Request) : s.Same { s with requests } :=
  ⟨(List.append_nil _).symm, (List.append_nil _).symm⟩

theorem same_leave (s : Stage) (r : Request) : s.Same (s.leave r) := s.same_requests _

theorem same_update {α : Type} (s : Stage) {u : Variables.Update α}
    (h : ∀ e ∈ u.trace, e.isAside = true) : s.Same (s.update u) :=
  ⟨by rw [List.append_nil, update, observe, callsOf_append, callsOf_eq_nil h, List.append_nil],
    (List.append_nil _).symm⟩

theorem same_read (s : Stage) (raw : String) : s.Same (s.read raw).2 :=
  ⟨by rw [List.append_nil, read, observe, callsOf_append, Reading.ofText,
      callsOf_eq_nil (isAside_of_mem_ofTokens _ _), List.append_nil], (List.append_nil _).symm⟩

theorem same_startingPoint (s : Stage) (c : Conversation) : s.Same (s.startingPoint c).2 :=
  s.same_annotate _

theorem same_portrait (s : Stage) (setting : Setting) (set sprite : String) :
    s.Same (s.portrait setting set sprite).2 := s.same_annotate _

/-- Some deeds have been added to a stage, and else only asides. -/
def Acts (s s' : Stage) : Prop := ∃ t, (∀ e ∈ t, e.isDeed = true) ∧ s.Adds s' t []

theorem Same.acts {s t : Stage} (h : s.Same t) : s.Acts t := ⟨[], List.forall_mem_nil _, h⟩

theorem acts_observe (s : Stage) {t : Trace} (h : ∀ e ∈ t, e.isDeed = true ∨ e.isAside = true) :
    s.Acts (s.observe t) := ⟨_, isDeed_of_mem_callsOf h, s.adds_observe t⟩

theorem acts_fire (s : Stage) (setting : Setting) (declared : List Action) (name : String)
    (supplied : Supplied) : s.Acts (s.fire setting declared name supplied).2 :=
  s.acts_observe fun _ => Action.isDeed_or_isAside_of_mem_performNamed

/-- **A command adds only deeds**, before what is left to do for it. -/
theorem acts_carryOut (s : Stage) (setting : Setting) (declared : List Action) (k : Clock)
    (c : Command) : s.Acts (s.carryOut setting declared k c).stage := by
  cases c with
  | removeVariable name => exact (s.same_update fun _ => isAside_of_mem_remove).acts
  | log severity text =>
    exact s.acts_observe fun e he => .inl (by rw [List.mem_singleton.1 he]; rfl)
  | sendMessage target message =>
    rw [carryOut]
    dsimp only
    split
    · exact (s.same_annotate _).acts
    · exact s.acts_observe fun _ => Action.isDeed_or_isAside_of_mem_deliver
  | perform name supplied => exact s.acts_fire setting declared name supplied
  | changeSprite set sprite => exact (s.same_portrait ..).acts
  | _ => exact (Same.refl s).acts

end Stage

/-! ## What belongs to a moment -/

/-- Whether an entry introduces a speaker on a text box. -/
def Entry.introduces (e : Entry) (c : Channel) : Prop :=
  (∃ name, e = .speaker c name) ∨ ∃ image?, e = .portrait c image?

namespace Moment

/-- The calls that belong to a moment on a text box. -/
def Presents (c : Channel) (calls : Trace) : Moment → Prop
  | shown d _ s =>
    ∃ sameSpeaker auto rest, calls = .sentence c s.text d.speaker? sameSpeaker auto :: rest ∧
      ∀ e ∈ rest, e.introduces c
  | letter => calls = [.reveal c]
  | whole => calls = [.revealed c]
  | tag _ => ∀ e ∈ calls, e.isDeed = true ∨ ∃ image?, e = .portrait c image?
  | fired _ => ∀ e ∈ calls, e.isDeed = true
  | offered d => c = .main ∧ calls = [.options (d.choices.map (·.text))]
  | begun .. | entered _ => ∀ e ∈ calls, ∃ name, e = .anchor c name
  | chosen .. | concluded _ => calls = []
  | ended .. => calls = [.close c]

/-- The announcements that belong to a moment on a text box. -/
def announcements : Channel → Moment → List Event
  | .main, begun name .. => [.conversationStarted name]
  | .main, ended name _ => [.conversationEnded name]
  | .background id, begun name .. => [.backgroundStarted id name]
  | .background id, ended .. => [.backgroundFinished id]
  | _, _ => []

/-- What is called in a moment is called on its text box. -/
theorem Presents.channel {c d : Channel} {m : Moment} {calls : Trace}
    (h : m.Presents c calls) {e : Entry} (he : e ∈ calls) (hd : e.channel? = some d) : d = c := by
  have hdeed : e.isDeed = true → d = c := by
    intro hdeed
    cases e with
    | deliver | log => cases hd
    | _ => cases hdeed
  cases m with
  | shown s i sentence =>
    obtain ⟨same, auto, rest, rfl, hrest⟩ := h
    rcases List.mem_cons.1 he with rfl | he
    · cases hd
      rfl
    · obtain ⟨name, rfl⟩ | ⟨image?, rfl⟩ := hrest e he <;> cases hd <;> rfl
  | letter | whole | ended =>
    subst h
    obtain rfl := List.mem_singleton.1 he
    cases hd
    rfl
  | tag k =>
    obtain hacts | ⟨image?, rfl⟩ := h e he
    · exact hdeed hacts
    · cases hd
      rfl
  | fired a => exact hdeed (h e he)
  | offered s =>
    obtain ⟨rfl, rfl⟩ := h
    obtain rfl := List.mem_singleton.1 he
    cases hd
    rfl
  | begun | entered =>
    obtain ⟨name, rfl⟩ := h e he
    cases hd
    rfl
  | chosen | concluded =>
    subst h
    cases he

/-- A text box is closed at an end, which is all that is called then. -/
theorem Presents.of_close {c d : Channel} {m : Moment} {calls : Trace}
    (h : m.Presents c calls) (hd : .close d ∈ calls) :
    (∃ name why, m = .ended name why) ∧ d = c ∧ calls = [.close c] := by
  have hc : d = c := h.channel hd rfl
  cases m with
  | ended name why => exact ⟨⟨name, why, rfl⟩, hc, h⟩
  | shown s i sentence =>
    obtain ⟨same, auto, rest, rfl, hrest⟩ := h
    rcases List.mem_cons.1 hd with hd | hd
    · cases hd
    · obtain ⟨name, heq⟩ | ⟨image?, heq⟩ := hrest _ hd <;> cases heq
  | letter | whole | chosen | concluded =>
    subst h
    simp at hd
  | tag k =>
    obtain hacts | ⟨image?, heq⟩ := h _ hd
    · cases hacts
    · cases heq
  | fired a => cases h _ hd
  | offered s =>
    obtain ⟨-, rfl⟩ := h
    simp at hd
  | begun | entered =>
    obtain ⟨name, heq⟩ := h _ hd
    cases heq

end Moment

end Colloquy
