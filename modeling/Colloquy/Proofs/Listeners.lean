import Colloquy.Proofs.Markup.Passage
import Colloquy.Proofs.Playback.Operation
import Mathlib.Data.List.Induction
import Mathlib.Data.Set.Insert
import Mathlib.Logic.Function.Basic

/-!
# Proofs/Listeners — what the listeners to the variables hear

The variables change by edits: a name is bound to a value, or it is unbound. Each edit is told as a
change that says whether the name was bound before (`Edit.Told`). The edits that a call asks for can
be said without the variables' answer to it: they are what can be read as a value, and what can be
removed (`Variables.Call.edits`), and those of a sentence stand in its passages (`Passage.edit?`).
Whatever calls are made, the variables are as the last edit of each name left them, and a listener
hears of the edits since it was added, one by one, and of nothing else
(`Variables.informed_callAll`).
-/

namespace Colloquy

/-! ## Edits and how they are told -/

/-- What variables hold. -/
abbrev Bindings := String → Option Value

/-- The names that are bound. -/
def bound (b : Bindings) : Set String := {name | b name ≠ none}

/-- A change of one variable. -/
inductive Edit
  | bind (name : String) (v : Value)
  | unbind (name : String)

namespace Edit

/-- The name of the variable. -/
def name : Edit → String
  | bind name _ | unbind name => name

/-- What it holds then. -/
def value? : Edit → Option Value
  | bind _ v => some v
  | unbind _ => none

/-- What the variables hold then. -/
def apply (b : Bindings) (e : Edit) : Bindings := Function.update b e.name e.value?

/-- An edit is told as a change: a name is registered if it was not bound before, updated if it was,
and removed if it was and is not any more. -/
inductive Told (b : Bindings) : Edit → Change → Prop
  | registered {name : String} {v : Value} (h : b name = none) :
    Told b (.bind name v) (.registered name)
  | updated {name : String} {v : Value} (h : b name ≠ none) : Told b (.bind name v) (.updated name)
  | removed {name : String} (h : b name ≠ none) : Told b (.unbind name) (.removed name)

end Edit

/-- Edits are told as changes, one by one, and lead from what the variables held to what they
hold. -/
inductive Recounted : Bindings → List Edit → List Change → Bindings → Prop
  | nil {b : Bindings} : Recounted b [] [] b
  | cons {b b' : Bindings} {e : Edit} {c : Change} {es : List Edit} {cs : List Change}
    (h : e.Told b c) (hrest : Recounted (e.apply b) es cs b') : Recounted b (e :: es) (c :: cs) b'

/-- The names that are bound after a change, for one who knows which were bound before. -/
def Change.replay (names : Set String) : Change → Set String
  | registered name => insert name names
  | updated _ => names
  | removed name => names \ {name}

/-- What the last of some edits of a name left. -/
def lastWritten (b : Bindings) (es : List Edit) (name : String) : Option Value :=
  (es.filter fun e => e.name = name).getLast?.elim (b name) Edit.value?

section

variable {b b' b'' : Bindings} {e : Edit} {c : Change} {es es' : List Edit} {cs cs' : List Change}

theorem mem_bound {name : String} : name ∈ bound b ↔ b name ≠ none := Iff.rfl

theorem mem_bound_apply {name : String} :
    name ∈ bound (e.apply b) ↔ if name = e.name then e.value? ≠ none else name ∈ bound b := by
  rw [mem_bound, Edit.apply, Function.update_apply]
  split_ifs <;> rfl

/-- What is told of an edit is enough to know which names are bound. -/
theorem Edit.Told.replay (h : e.Told b c) : c.replay (bound b) = bound (e.apply b) := by
  ext other
  rw [mem_bound_apply]
  cases h with
  | @registered name v _ =>
    by_cases heq : other = name <;> simp [Change.replay, Edit.name, value?, heq]
  | @updated name v hbound =>
    by_cases heq : other = name
    · simpa [Change.replay, Edit.name, value?, heq, mem_bound] using hbound
    · simp [Change.replay, Edit.name, heq]
  | @removed name _ =>
    by_cases heq : other = name <;> simp [Change.replay, Edit.name, value?, heq]

/-- What is told of edits is enough to know which names are bound after them. -/
theorem Recounted.replay (h : Recounted b es cs b') :
    cs.foldl Change.replay (bound b) = bound b' := by
  induction h with
  | nil => rfl
  | cons h _ ih => rw [List.foldl_cons, h.replay, ih]

theorem Recounted.append (h : Recounted b es cs b') (h' : Recounted b' es' cs' b'') :
    Recounted b (es ++ es') (cs ++ cs') b'' := by
  induction h with
  | nil => exact h'
  | cons ht _ ih => exact .cons ht (ih h')

theorem Recounted.eq_foldl (h : Recounted b es cs b') : b' = es.foldl Edit.apply b := by
  induction h with
  | nil => rfl
  | cons _ _ ih => exact ih

/-- **The last write wins.** -/
theorem foldl_apply (b : Bindings) (es : List Edit) : es.foldl Edit.apply b = lastWritten b es := by
  funext name
  induction es using List.reverseRecOn with
  | nil => rfl
  | append_singleton es e ih =>
    rw [List.foldl_append, List.foldl_cons, List.foldl_nil, Edit.apply, Function.update_apply, ih,
      lastWritten, lastWritten, List.filter_append]
    by_cases h : e.name = name
    · simp [h]
    · simp [h, Ne.symm h]

end

/-! ## Who hears of what -/

/-- The change that a listener hears of in an entry. -/
def Entry.heardBy? (i : Nat) : Entry → Option Change
  | change j c => if j = i then some c else none
  | _ => none

/-- The changes that a listener hears of, in order. -/
def Trace.heardBy (trace : Trace) (i : Nat) : List Change := trace.filterMap (Entry.heardBy? i)

/-- Nobody hears of any change. -/
def Trace.Quiet (trace : Trace) : Prop := ∀ i, trace.heardBy i = []

/-- The first so many listeners hear of the changes, and no other listener hears of any. -/
def Heard (n : Nat) (trace : Trace) (cs : List Change) : Prop :=
  ∀ i, trace.heardBy i = if i < n then cs else []

section

variable {n : Nat} {trace trace' : Trace} {cs cs' : List Change}

theorem heardBy_append (i : Nat) :
    (trace ++ trace').heardBy i = trace.heardBy i ++ trace'.heardBy i := List.filterMap_append

theorem Trace.Quiet.heard (h : trace.Quiet) : Heard n trace [] := fun i => by rw [h, ite_self]

theorem quiet_notes (ns : List Note) : Trace.Quiet (ns.map .note) := fun i =>
  List.filterMap_eq_nil_iff.2 fun e he => by
    obtain ⟨note, -, rfl⟩ := List.mem_map.1 he
    rfl

theorem Heard.append (h : Heard n trace cs) (h' : Heard n trace' cs') :
    Heard n (trace ++ trace') (cs ++ cs') := fun i => by
  rw [heardBy_append, h, h']
  split_ifs <;> rfl

/-- Each listener hears of a change once. -/
theorem heard_announce (vars : Variables) (c : Change) :
    Heard vars.listeners (vars.announce c) [c] := fun i => by
  rw [Variables.announce]
  induction vars.listeners with
  | zero => rfl
  | succ n ih =>
    have hlast : Trace.heardBy [.change n c] i = if n = i then [c] else [] := by
      by_cases h : n = i <;> simp [Trace.heardBy, Entry.heardBy?, h]
    rw [List.range_succ, List.map_append, heardBy_append, ih, List.map_singleton, hlast]
    obtain h | rfl | h := Nat.lt_trichotomy i n
    · simp [h, h.ne', Nat.lt_succ_of_lt h]
    · simp
    · simp [Nat.not_lt_of_gt h, h.ne, Nat.not_lt.2 h]

end

/-! ## Edits of variables -/

namespace Variables

/-- Edits of the variables: every listener hears of them as they are told, and nobody else. -/
structure Edited (vars : Variables) (es : List Edit) (trace : Trace) (vars' : Variables) :
    Prop where
  listeners : vars'.listeners = vars.listeners
  heard : ∃ cs, Recounted vars.get? es cs vars'.get? ∧ Heard vars.listeners trace cs

variable {vars vars' vars'' : Variables} {es es' : List Edit} {trace trace' : Trace}

theorem edited_nil (h : trace.Quiet) : Edited vars [] trace vars := ⟨rfl, [], .nil, h.heard⟩

theorem Edited.append (h : Edited vars es trace vars') (h' : Edited vars' es' trace' vars'') :
    Edited vars (es ++ es') (trace ++ trace') vars'' := by
  obtain ⟨cs, hcs, hheard⟩ := h.heard
  obtain ⟨cs', hcs', hheard'⟩ := h'.heard
  rw [h.listeners] at hheard'
  exact ⟨h'.listeners.trans h.listeners, cs ++ cs', hcs.append hcs', hheard.append hheard'⟩

theorem edited_register (vars : Variables) (name : String) (v : Value) :
    Edited vars [.bind name v] (vars.register name v).trace (vars.register name v).vars := by
  have happly : (Edit.bind name v).apply vars.get? = (vars.register name v).vars.get? := by
    funext other
    rw [get?_register, Edit.apply, Function.update_apply]
    simp only [Edit.name, Edit.value?, eq_comm]
  have htold : (Edit.bind name v).Told vars.get? (vars.registration name) := by
    unfold registration
    cases h : vars.get? name with
    | none => exact .registered h
    | some w => exact .updated (by simp [h])
  exact ⟨rfl, [vars.registration name], .cons htold (happly ▸ .nil), heard_announce vars _⟩

/-- A text that cannot be read changes nothing. -/
theorem registerText_of_parse?_eq_none {raw : String} {kind : Kind}
    (h : kind.parse? raw = none) (vars : Variables) (name : String) :
    ∃ e note, vars.registerText name raw kind = ⟨.error e, vars, [.note note]⟩ := by
  unfold registerText
  simp only [Kind.parse_eq_error_iff.2 ⟨h, rfl⟩]
  exact ⟨_, _, rfl⟩

/-- A name that is not bound cannot be unbound. -/
theorem remove_of_get?_eq_none {name : String} (h : vars.get? name = none) :
    ∃ e note, vars.remove name = ⟨.error e, vars, [.note note]⟩ := by
  simp only [remove, h]
  exact ⟨_, _, rfl⟩

theorem edited_registerText (vars : Variables) (name raw : String) (kind : Kind) :
    Edited vars ((kind.parse? raw).toList.map (.bind name))
      (vars.registerText name raw kind).trace (vars.registerText name raw kind).vars := by
  cases h : kind.parse? raw with
  | none =>
    obtain ⟨e, note, hu⟩ := registerText_of_parse?_eq_none h vars name
    rw [hu]
    exact edited_nil (quiet_notes [note])
  | some v =>
    unfold registerText
    simp only [Kind.parse_eq_ok_iff.2 h]
    exact edited_register vars name v

theorem edited_remove (vars : Variables) (name : String) :
    Edited vars (if vars.get? name = none then [] else [.unbind name])
      (vars.remove name).trace (vars.remove name).vars := by
  cases h : vars.get? name with
  | none =>
    obtain ⟨e, note, hu⟩ := remove_of_get?_eq_none h
    rw [hu, if_pos rfl]
    exact edited_nil (quiet_notes [note])
  | some v =>
    have hremove : vars.remove name = ⟨.ok v, { vars with bindings := vars.bindings.erase name },
        vars.announce (.removed name)⟩ := by simp only [remove, h]
    have happly : (Edit.unbind name).apply vars.get? = (vars.remove name).vars.get? := by
      funext other
      rw [get?_remove, Edit.apply, Function.update_apply]
      simp only [Edit.name, Edit.value?, eq_comm]
    have htold : (Edit.unbind name).Told vars.get? (.removed name) := .removed (by simp [h])
    rw [if_neg nofun]
    rw [hremove] at happly ⊢
    exact ⟨rfl, [.removed name], .cons htold (happly ▸ .nil), heard_announce vars _⟩

end Variables

/-! ## What a sentence edits -/

namespace Markup

/-- The edit that a complex tag makes: one that binds a variable makes the binding, if its content
can be read. -/
def Opened.edit? (o : Opened) : Option Edit :=
  match o.closing with
  | .register kind => (kind.parse? (String.ofList o.content)).map (.bind o.value)
  | .command _ => none

/-- The edit that a passage makes: that of a complex tag that is closed. -/
def Passage.edit? : Passage → Option Edit
  | element b _ _ => b.opened.edit?
  | _ => none

/-- The edits that a raw sentence makes, in order. -/
def edits (raw : String) : List Edit := (passages raw).filterMap Passage.edit?

theorem edited_close (o : Opened) (vars : Variables) :
    vars.Edited o.edit?.toList (o.close vars).trace (o.close vars).standing.vars := by
  obtain ⟨closing, word, value, content⟩ := o
  cases closing with
  | command e => exact Variables.edited_nil fun _ => rfl
  | register kind =>
    have h := vars.edited_registerText value (String.ofList content) kind
    rwa [← Option.toList_map] at h

theorem quiet_only (pieces : List Piece) (vars : Variables) :
    (Step.only pieces vars).trace.Quiet := fun _ => rfl

theorem quiet_drop (i : Issue) (vars : Variables) : (Step.drop i vars).trace.Quiet :=
  quiet_notes [_]

theorem quiet_apply (k : Keyword) (word value : String) (vars : Variables) :
    (k.apply word value vars).trace.Quiet := by
  cases k with
  | timed t =>
    unfold Keyword.apply
    cases Single.ofChars? value.toList with
    | some x => exact quiet_only _ vars
    | none => exact quiet_drop _ vars
  | retrieve kind => exact quiet_notes _
  | _ => exact fun _ => rfl

theorem quiet_valued (k : Keyword) (word : String) (value? : Option String) (vars : Variables) :
    (valued k word value? vars).trace.Quiet := by
  unfold valued
  cases value? with
  | none => exact quiet_drop _ vars
  | some value =>
    dsimp only
    split_ifs
    · exact quiet_drop _ vars
    · exact quiet_apply k word value vars

/-- No group in no content is heard of. -/
theorem quiet_readGroup (body : List Char) (vars : Variables) :
    (readGroup body vars).trace.Quiet := by
  unfold readGroup
  split
  · split_ifs
    · exact quiet_drop _ vars
    · exact quiet_only _ vars
  · rw [readOpening_eq]
    split
    · exact quiet_only _ vars
    · exact quiet_only _ vars
    · exact quiet_valued _ _ _ vars

variable {b? : Option Begun} {t : Token} {next : Option Passage × Option Begun}

/-- A token makes the edit of the passage that it completes. -/
theorem Advances.edited (h : Advances b? t next) (vars : Variables) :
    let s := readToken (standing b? vars) t
    vars.Edited (next.1.toList.filterMap Passage.edit?) s.trace s.standing.vars := by
  intro s
  cases h with
  | letter c => exact Variables.edited_nil fun _ => rfl
  | @alone body ho =>
    have hquiet : s.trace.Quiet := quiet_readGroup body vars
    have hyields : Yields body vars s := yields_readGroup body vars
    have hvars : s.standing.vars = vars := by
      clear_value s
      cases hyields <;> rfl
    rw [hvars]
    exact Variables.edited_nil hquiet
  | @opening body o ho =>
    have hs : s = ⟨[], ⟨some o, vars⟩, []⟩ := readGroup_of_opens? ho vars
    rw [hs]
    exact Variables.edited_nil fun _ => rfl
  | @closing b body hc =>
    have hs : s = b.opened.close vars := if_pos hc
    have hedits : [Passage.element b body hc].filterMap Passage.edit? = b.opened.edit?.toList := by
      cases hedit : b.opened.edit? <;> simp [Passage.edit?, hedit]
    rw [hs]
    exact hedits ▸ edited_close b.opened vars
  | @within b t hc =>
    have hs : s = _ := readToken_content (o := b.opened) hc vars
    rw [hs]
    exact Variables.edited_nil fun _ => rfl

/-- Tokens make the edits of their passages. -/
theorem edited_ofTokens (ts : List Token) :
    ∀ (b? : Option Begun) (vars : Variables),
      let r := Reading.ofTokens (standing b? vars) ts
      vars.Edited ((passagesFrom b? ts).filterMap Passage.edit?) r.trace r.vars := by
  induction ts with
  | nil =>
    intro b? vars
    cases b? with
    | none => exact Variables.edited_nil fun _ => rfl
    | some b => exact Variables.edited_nil (quiet_drop _ vars)
  | cons t ts ih =>
    intro b? vars
    have hstep := (advances_advance b? t).edited vars
    obtain ⟨-, hstanding⟩ := (advances_advance b? t).accounts vars
    have hrest := ih (advance b? t).2 (readToken (standing b? vars) t).standing.vars
    rw [← hstanding] at hrest
    have happend := hstep.append hrest
    rw [← List.filterMap_append] at happend
    cases b? <;> exact happend

/-- **A sentence makes the edits that stand in it.** -/
theorem edited_ofText (vars : Variables) (raw : String) :
    vars.Edited (edits raw) (Reading.ofText vars raw).trace (Reading.ofText vars raw).vars :=
  edited_ofTokens (tokens raw.toList) none vars

end Markup

/-! ## Any calls -/

namespace Variables

/-- Something that is asked of the variables. -/
inductive Call
  | vary (c : VariableCall)
  /-- A raw sentence is read. -/
  | read (raw : String)

/-- The edits that a call makes, for what the variables hold: what is to be bound must be readable,
and what is to be unbound must be bound. -/
def Call.edits (b : Bindings) : Call → List Edit
  | vary (.register name v) => [.bind name v]
  | vary (.registerText name raw kind) => (kind.parse? raw).toList.map (.bind name)
  | vary (.remove name) => if b name = none then [] else [.unbind name]
  | vary .subscribe => []
  | read raw => Markup.edits raw

/-- A call that cannot be answered: a text that is not readable is to be bound, or a name that is
not bound is to be unbound. -/
def Call.Fails (b : Bindings) : Call → Prop
  | vary (.registerText _ raw kind) => kind.parse? raw = none
  | vary (.remove name) => b name = none
  | _ => False

/-- A call that adds a listener. -/
def Call.isSubscription : Call → Bool
  | vary .subscribe => true
  | _ => false

/-- The edits that calls make, one after the other. -/
def editsOf (b : Bindings) : List Call → List Edit
  | [] => []
  | c :: cs => c.edits b ++ editsOf ((c.edits b).foldl Edit.apply b) cs

/-- Answers a call. -/
def call (vars : Variables) : Call → Update (Except VariableError Unit)
  | .vary (.register name v) =>
    let u := vars.register name v
    ⟨.ok (), u.vars, u.trace⟩
  | .vary (.registerText name raw kind) => vars.registerText name raw kind
  | .vary (.remove name) =>
    let u := vars.remove name
    ⟨u.result.map fun _ => (), u.vars, u.trace⟩
  | .vary .subscribe => ⟨.ok (), vars.subscribe, []⟩
  | .read raw =>
    let r := Markup.Reading.ofText vars raw
    ⟨.ok (), r.vars, r.trace⟩

/-- Answers calls, one after the other. -/
def callAll (vars : Variables) : List Call → Update Unit
  | [] => ⟨(), vars, []⟩
  | c :: cs =>
    let u := vars.call c
    let rest := u.vars.callAll cs
    ⟨(), rest.vars, u.trace ++ rest.trace⟩

/-- A listener was told all of the edits that led from what the variables held to what they hold,
and knows from that which names are bound. -/
structure Informed (b : Bindings) (es : List Edit) (cs : List Change) (b' : Bindings) : Prop where
  recounted : Recounted b es cs b'
  replayed : cs.foldl Change.replay (bound b) = bound b'

variable {vars : Variables} {c : Call} {cs before after : List Call} {i : Nat}

theorem Call.eq_subscribe (h : c.isSubscription = true) : c = .vary .subscribe := by
  cases c with
  | read raw => cases h
  | vary c =>
    cases c with
    | subscribe => rfl
    | _ => cases h

/-- Any call but one that adds a listener makes its edits. -/
theorem edited_call (h : c.isSubscription = false) :
    vars.Edited (c.edits vars.get?) (vars.call c).trace (vars.call c).vars := by
  cases c with
  | read raw => exact Markup.edited_ofText vars raw
  | vary c =>
    cases c with
    | register name v => exact edited_register vars name v
    | registerText name raw kind => exact edited_registerText vars name raw kind
    | remove name => exact edited_remove vars name
    | subscribe => cases h

theorem listeners_call : (vars.call c).vars.listeners =
    vars.listeners + if c.isSubscription then 1 else 0 := by
  cases h : c.isSubscription with
  | false => exact (edited_call h).listeners
  | true =>
    rw [Call.eq_subscribe h]
    rfl

/-- The edits of a call are told to the listeners that there are. -/
theorem heard_call (vars : Variables) (c : Call) :
    ∃ cs, Recounted vars.get? (c.edits vars.get?) cs (vars.call c).vars.get? ∧
      Heard vars.listeners (vars.call c).trace cs := by
  cases h : c.isSubscription with
  | false => exact (edited_call h).heard
  | true =>
    rw [Call.eq_subscribe h]
    exact ⟨[], .nil, Trace.Quiet.heard fun _ => rfl⟩

theorem get?_call (vars : Variables) (c : Call) :
    (vars.call c).vars.get? = (c.edits vars.get?).foldl Edit.apply vars.get? := by
  obtain ⟨_, hcs, -⟩ := heard_call vars c
  exact hcs.eq_foldl

theorem editsOf_cons (vars : Variables) (c : Call) (cs : List Call) :
    editsOf vars.get? (c :: cs) = c.edits vars.get? ++ editsOf (vars.call c).vars.get? cs := by
  rw [editsOf, get?_call]

theorem listeners_callAll (cs : List Call) : ∀ vars : Variables,
    (vars.callAll cs).vars.listeners = vars.listeners + cs.countP Call.isSubscription := by
  induction cs with
  | nil => exact fun _ => rfl
  | cons c cs ih =>
    intro vars
    rw [callAll, ih, listeners_call, List.countP_cons]
    omega

theorem get?_callAll (cs : List Call) : ∀ vars : Variables,
    (vars.callAll cs).vars.get? = (editsOf vars.get? cs).foldl Edit.apply vars.get? := by
  induction cs with
  | nil => exact fun _ => rfl
  | cons c cs ih =>
    intro vars
    rw [callAll, ih, editsOf_cons, List.foldl_append, ← get?_call]

/-- Who listens from the start hears of all edits. -/
theorem recounted_callAll (cs : List Call) : ∀ {vars : Variables}, i < vars.listeners →
    Recounted vars.get? (editsOf vars.get? cs) ((vars.callAll cs).trace.heardBy i)
      (vars.callAll cs).vars.get? := by
  induction cs with
  | nil => exact fun _ => .nil
  | cons c cs ih =>
    intro vars hi
    obtain ⟨changes, hchanges, hheard⟩ := heard_call vars c
    have hmore : i < (vars.call c).vars.listeners := by
      rw [listeners_call]
      omega
    have hfirst : (vars.call c).trace.heardBy i = changes := (hheard i).trans (if_pos hi)
    rw [callAll, editsOf_cons, heardBy_append, hfirst]
    exact hchanges.append (ih hmore)

/-- Who does not listen hears of nothing. -/
theorem heardBy_callAll (cs : List Call) : ∀ {vars : Variables},
    (vars.callAll cs).vars.listeners ≤ i → (vars.callAll cs).trace.heardBy i = [] := by
  induction cs with
  | nil => exact fun _ => rfl
  | cons c cs ih =>
    intro vars hi
    obtain ⟨changes, -, hheard⟩ := heard_call vars c
    have hnot : ¬ i < vars.listeners := by
      rw [listeners_callAll] at hi
      omega
    rw [callAll, heardBy_append, ih hi, List.append_nil, hheard, if_neg hnot]

theorem callAll_append (cs' : List Call) (cs : List Call) : ∀ vars : Variables,
    let u := vars.callAll cs
    let u' := u.vars.callAll cs'
    vars.callAll (cs ++ cs') = ⟨(), u'.vars, u.trace ++ u'.trace⟩ := by
  induction cs with
  | nil => exact fun _ => rfl
  | cons c cs ih =>
    intro vars
    simp only [List.cons_append, callAll, ih, List.append_assoc]

/-- Who listens from somewhere on hears of all edits from there on. -/
theorem recounted_subscribed (vars : Variables) (before after : List Call) :
    let there := (vars.callAll before).vars
    let u := vars.callAll (before ++ .vary .subscribe :: after)
    Recounted there.get? (editsOf there.get? after) (u.trace.heardBy there.listeners)
      u.vars.get? := by
  intro there u
  have hu : u = _ := callAll_append (.vary .subscribe :: after) before vars
  have hbefore : (vars.callAll before).trace.heardBy there.listeners = [] :=
    heardBy_callAll before (Nat.le_refl _)
  have hadded : there.listeners < there.subscribe.listeners := Nat.lt_succ_self _
  rw [hu, heardBy_append, hbefore]
  exact recounted_callAll after hadded

/-- A call that cannot be answered changes nothing, and all that comes of it is a note. -/
theorem call_of_fails (h : c.Fails vars.get?) :
    ∃ e note, vars.call c = ⟨.error e, vars, [.note note]⟩ := by
  cases c with
  | read raw => cases h
  | vary c =>
    cases c with
    | registerText name raw kind => exact registerText_of_parse?_eq_none h vars name
    | remove name =>
      obtain ⟨e, note, hu⟩ := remove_of_get?_eq_none h
      refine ⟨e, note, ?_⟩
      rw [call, hu]
      rfl
    | _ => cases h

theorem result_call_of_not_fails (h : ¬ c.Fails vars.get?) : (vars.call c).result = .ok () := by
  cases c with
  | read raw => rfl
  | vary c =>
    cases c with
    | registerText name raw kind =>
      obtain ⟨v, hv⟩ := Option.ne_none_iff_exists'.1 h
      simp only [call, registerText, Kind.parse_eq_ok_iff.2 hv]
    | remove name =>
      obtain ⟨v, hv⟩ := Option.ne_none_iff_exists'.1 h
      simp only [call, remove, hv]
      rfl
    | _ => rfl

theorem exists_error_call_iff : (∃ e, (vars.call c).result = .error e) ↔ c.Fails vars.get? := by
  constructor
  · rintro ⟨e, he⟩
    by_contra hnot
    cases he.symm.trans (result_call_of_not_fails hnot)
  · intro h
    obtain ⟨e, note, hu⟩ := call_of_fails h
    exact ⟨e, by rw [hu]⟩

/-- **The listeners to the variables are told the truth.** Whatever calls are made, the variables
are as the last edit of each name left them. Each listener, whether it was there before or was added
by one of the calls, was told all edits since, in order and once each, and nobody else was told of
any. A call fails exactly if it cannot be answered, and then nothing changes and nobody is told. -/
theorem informed_callAll (vars : Variables) (calls : List Call) :
    let u := vars.callAll calls
    (∀ name, u.vars.get? name = lastWritten vars.get? (editsOf vars.get? calls) name) ∧
    u.vars.listeners = vars.listeners + calls.countP Call.isSubscription ∧
    (∀ i < vars.listeners,
      Informed vars.get? (editsOf vars.get? calls) (u.trace.heardBy i) u.vars.get?) ∧
    (∀ before after, calls = before ++ .vary .subscribe :: after →
      let there := (vars.callAll before).vars
      Informed there.get? (editsOf there.get? after) (u.trace.heardBy there.listeners)
        u.vars.get?) ∧
    (∀ i, u.vars.listeners ≤ i → u.trace.heardBy i = []) ∧
    ∀ c, ((∃ e, (u.vars.call c).result = .error e) ↔ c.Fails u.vars.get?) ∧
      (c.Fails u.vars.get? → (u.vars.call c).vars = u.vars ∧ (u.vars.call c).trace.Quiet) := by
  intro u
  refine ⟨fun name => ?_, listeners_callAll calls vars, fun i hi => ?_, ?_,
    fun i hi => heardBy_callAll calls hi, fun c => ⟨exists_error_call_iff, fun h => ?_⟩⟩
  · rw [get?_callAll, foldl_apply]
  · have h := recounted_callAll calls hi
    exact ⟨h, h.replay⟩
  · rintro before after rfl
    have h := recounted_subscribed vars before after
    exact ⟨h, h.replay⟩
  · obtain ⟨e, note, hcall⟩ := call_of_fails h
    rw [hcall]
    exact ⟨rfl, quiet_notes [note]⟩

/-- A listener that is added behind a binding hears of the one that a sentence makes and of the
removal, and neither of a text that is no number nor of the second removal. -/
theorem informed_callAll_late :
    let before : List Call := [.vary (.register "x" (.int 1))]
    let after : List Call := [.read "<registerint=x>2</registerint>",
      .vary (.registerText "x" "two" .int), .vary (.remove "x"), .vary (.remove "x")]
    let there := (empty.callAll before).vars
    let u := empty.callAll (before ++ .vary .subscribe :: after)
    u.trace.heardBy 0 = [.updated "x", .removed "x"] ∧ u.vars.get? "x" = none ∧
      Informed there.get? (editsOf there.get? after) (u.trace.heardBy 0) u.vars.get? := by
  intro before after there u
  have hheard : u.trace.heardBy 0 = [.updated "x", .removed "x"] := by decide +kernel
  have hgone : u.vars.get? "x" = none := by decide +kernel
  obtain ⟨-, -, -, hlate, -⟩ := informed_callAll empty (before ++ .vary .subscribe :: after)
  exact ⟨hheard, hgone, hlate before after rfl⟩

end Variables

end Colloquy
