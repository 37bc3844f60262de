import Colloquy.Proofs.Script.Clean
import Colloquy.Session

/-!
# Proofs/Script/Substance — what a script hands on has substance

A message and its target, a theme, the name of a conversation and a line of the log are checked for
blanks on the way from a script to whoever takes them, in other places for each: a tag is trimmed
and dropped without a value (`readToken_proper`), an action fires only with what it needs, be it
declared or supplied (`Action.performNamed_proper`), and blank fields of a dialogue count as absent
(`Dialogue.theme?_filled`). So whatever comes of reading, checking and firing is `Proper`: nothing
blank is handed on in it, and no note tells that a link led nowhere (`Note.Astray`).
-/

namespace Colloquy

/-! ## What is proper -/

/-- A note that tells of a dialogue that is not there. -/
def Note.Astray (n : Note) : Prop := ∃ id, n = .failure (PlaybackError.dialogueNotFound id).message

/-- Nothing blank is delivered, put on or logged, and no note tells of a dialogue that is not
there. -/
def Entry.Proper : Entry → Prop
  | .deliver target message _ => ¬ Text.IsBlank target ∧ ¬ Text.IsBlank message
  | .theme name => ¬ Text.IsBlank name
  | .log _ text => ¬ Text.IsBlank text
  | .note n => ¬ n.Astray
  | _ => True

/-- A request has the name that it needs. -/
def Request.Filled : Request → Prop
  | .changeTheme name | .startBackgroundConversation name => ¬ Text.IsBlank name
  | .closeConversation | .closeBackgroundConversations => True

/-- An event that tells of a theme names it. -/
def Event.Filled : Event → Prop
  | .themeChanged theme => ¬ Text.IsBlank theme
  | _ => True

/-- A command of a tag has the value that it needs. What a complex tag encloses may be blank. -/
def Markup.Command.Filled : Command → Prop
  | .log _ value | .changeTheme value | .startBackgroundConversation value
  | .sendMessage value _ => ¬ Text.IsBlank value
  | _ => True

/-- A text begins otherwise than a note that tells of a dialogue does. -/
def Text.Apart (s : String) : Prop := ∃ c, s.toList.head? = some c ∧ c ≠ 'd'

theorem Text.head?_append {a b : String} {c : Char} (h : a.toList.head? = some c) :
    (a ++ b).toList.head? = some c := by
  rw [String.toList_append, List.head?_append, h, Option.some_or]

theorem Text.Apart.append {a b : String} (h : Apart a) : Apart (a ++ b) := by
  obtain ⟨c, hc, hne⟩ := h
  exact ⟨c, head?_append hc, hne⟩

namespace Note

/-- Notes are told apart by what they begin with. -/
theorem not_astray {n : Note} (h : Text.Apart n.text) : ¬ n.Astray := by
  obtain ⟨c, hc, hne⟩ := h
  rintro ⟨id, rfl⟩
  have hd : (PlaybackError.dialogueNotFound id).message.toList.head? = some 'd' :=
    Text.head?_append (Text.head?_append rfl)
  exact hne (Option.some.inj (hc.symm.trans hd))

theorem warning_not_astray {text : String} (h : Text.Apart text) :
    ∀ n ∈ [warning text], ¬ n.Astray :=
  List.forall_mem_singleton.2 (not_astray h)

theorem failure_not_astray {text : String} (h : Text.Apart text) :
    ∀ n ∈ [failure text], ¬ n.Astray :=
  List.forall_mem_singleton.2 (not_astray h)

end Note

namespace Entry

theorem proper_of_notes {ns : List Note} (h : ∀ n ∈ ns, ¬ n.Astray) :
    ∀ e ∈ ns.map Entry.note, e.Proper := by
  intro e he
  obtain ⟨n, hn, rfl⟩ := List.mem_map.1 he
  exact h n hn

theorem warning_proper {text : String} (h : Text.Apart text) :
    ∀ e ∈ [Entry.note (.warning text)], e.Proper :=
  proper_of_notes (Note.warning_not_astray h)

theorem failure_proper {text : String} (h : Text.Apart text) :
    ∀ e ∈ [Entry.note (.failure text)], e.Proper :=
  proper_of_notes (Note.failure_not_astray h)

end Entry

/-! ## How notes begin -/

theorem ActionError.apart_message (e : ActionError) : Text.Apart e.message := by
  cases e with
  | notDeclared => exact .append (.append ⟨_, rfl, by decide⟩)
  | emptyName => exact ⟨_, rfl, by decide⟩
  | unknownType | missingMessage | missingTarget =>
    exact .append (.append (.append (.append ⟨_, rfl, by decide⟩)))
  | undelivered => exact .append (.append ⟨_, rfl, by decide⟩)

theorem VariableError.apart_message (e : VariableError) : Text.Apart e.message := by
  cases e with
  | unreadable => exact .append (.append (.append ⟨_, rfl, by decide⟩))
  | notRegistered => exact .append (.append ⟨_, rfl, by decide⟩)

theorem Markup.Issue.apart_message (i : Issue) : Text.Apart i.message := by
  cases i with
  | missingValue | unclosed | strayClose => exact .append (.append ⟨_, rfl, by decide⟩)
  | badNumber | badLiteral => exact .append (.append (.append (.append ⟨_, rfl, by decide⟩)))

theorem SpriteFamily.apart_name (family : SpriteFamily) : Text.Apart family.name := by
  cases family <;> exact ⟨_, rfl, by decide⟩

/-! ## Variables, conditions and sprites -/

namespace Variables

variable (vars : Variables)

theorem announce_proper (c : Change) : ∀ e ∈ vars.announce c, e.Proper := by
  intro e he
  obtain ⟨i, -, rfl⟩ := List.mem_map.1 he
  trivial

theorem registerText_proper (name raw : String) (kind : Kind) :
    ∀ e ∈ (vars.registerText name raw kind).trace, e.Proper := by
  unfold registerText
  split
  · exact vars.announce_proper _
  · exact Entry.warning_proper (VariableError.unreadable name _).apart_message

theorem remove_proper (name : String) : ∀ e ∈ (vars.remove name).trace, e.Proper := by
  unfold remove
  split
  · exact vars.announce_proper _
  · exact Entry.failure_proper (.append ⟨_, rfl, by decide⟩)

theorem not_astray_retrieveAs (name : String) (kind : Kind) :
    ∀ n ∈ (vars.retrieveAs name kind).notes, ¬ n.Astray := by
  unfold retrieveAs
  split
  · exact Note.warning_not_astray ⟨_, rfl, by decide⟩
  · split
    · exact List.forall_mem_nil _
    · exact Note.warning_not_astray (.append (.append (.append (.append ⟨_, rfl, by decide⟩))))

theorem not_astray_retrieve (name : String) : ∀ n ∈ (vars.retrieve name).notes, ¬ n.Astray := by
  unfold retrieve
  split
  · exact List.forall_mem_nil _
  · exact Note.warning_not_astray ⟨_, rfl, by decide⟩

end Variables

theorem Operand.not_astray_resolve (o : Operand) (vars : Variables) :
    ∀ n ∈ (o.resolve vars).notes, ¬ n.Astray := by
  unfold resolve
  split
  · split
    · exact vars.not_astray_retrieve _
    · exact List.forall_mem_nil _
  · split <;> exact List.forall_mem_nil _

namespace Condition

theorem not_astray_judge (comparison : Comparison) (left right : Value) :
    ∀ n ∈ (judge comparison left right).notes, ¬ n.Astray := by
  unfold judge
  split
  · exact Note.warning_not_astray
      (.append (.append (.append (.append (.append (.append ⟨_, rfl, by decide⟩))))))
  · split
    · exact List.forall_mem_nil _
    · exact Note.warning_not_astray (.append (.append (.append (.append ⟨_, rfl, by decide⟩))))

theorem not_astray_evaluate (c : Condition) (vars : Variables) :
    ∀ n ∈ (c.evaluate vars).notes, ¬ n.Astray := by
  unfold evaluate
  split
  · dsimp only
    split
    · exact List.forall_mem_append.2 ⟨List.forall_mem_append.2
        ⟨Operand.not_astray_resolve _ vars, Operand.not_astray_resolve _ vars⟩,
        not_astray_judge _ _ _⟩
    · exact List.forall_mem_append.2 ⟨List.forall_mem_append.2
        ⟨Operand.not_astray_resolve _ vars, Operand.not_astray_resolve _ vars⟩,
        Note.warning_not_astray ⟨_, rfl, by decide⟩⟩
  · exact Note.warning_not_astray (.append (.append ⟨_, rfl, by decide⟩))

theorem not_astray_allHold (vars : Variables) (cs : List Condition) :
    ∀ n ∈ (allHold vars cs).notes, ¬ n.Astray := by
  induction cs with
  | nil => exact List.forall_mem_nil _
  | cons c cs ih =>
    rw [allHold]
    split
    · exact List.forall_mem_append.2 ⟨c.not_astray_evaluate vars, ih⟩
    · exact c.not_astray_evaluate vars

end Condition

theorem Conversation.not_astray_bestStart (vars : Variables) (ds : List Dialogue) :
    ∀ best : Option Dialogue, ∀ n ∈ (bestStart vars best ds).notes, ¬ n.Astray := by
  induction ds with
  | nil => exact fun _ => List.forall_mem_nil _
  | cons d ds ih =>
    intro best
    rw [bestStart]
    split
    · exact List.forall_mem_append.2 ⟨Condition.not_astray_allHold vars _, ih _⟩
    · exact ih _

theorem Sprites.not_astray_resolve (s : Sprites) (family : SpriteFamily) (set sprite : String) :
    ∀ n ∈ (s.resolve family set sprite).notes, ¬ n.Astray := by
  unfold resolve
  split
  · exact List.forall_mem_nil _
  · split
    · exact Note.failure_not_astray (.append family.apart_name)
    · split
      · exact List.forall_mem_nil _
      · exact Note.warning_not_astray (.append family.apart_name)

/-! ## Sentences -/

/-- What has been trimmed and is not empty is not blank. -/
theorem Text.not_isBlank_trimChars {cs : List Char} (h : String.ofList (trimChars cs) ≠ "") :
    ¬ IsBlank (String.ofList (trimChars cs)) := by
  intro hblank
  rw [IsBlank, String.toList_ofList, List.all_eq_true] at hblank
  refine h ?_
  have hnil : trimChars cs = [] := by
    by_contra hne
    have hdropped : (cs.dropWhile isSpace).reverse.dropWhile isSpace ≠ [] := fun hnil =>
      hne (by rw [trimChars, hnil, List.reverse_nil])
    -- the last character that is left is none of the white space at the end
    have hlast := List.head_dropWhile_not isSpace hdropped
    have hspace := hblank _ (List.mem_reverse.2 (List.head_mem hdropped))
    rw [hlast] at hspace
    cases hspace
  rw [hnil]

namespace Markup

/-- The value of a complex tag that waits for its closing tag is not blank. -/
def Standing.Filled (here : Standing) : Prop := ∀ o, here.opened = some o → ¬ Text.IsBlank o.value

/-- What comes of reading a token: commands with the values that they need, and proper entries. -/
structure Step.Proper (s : Step) : Prop where
  commands : ∀ c, .command c ∈ s.pieces → c.Filled
  standing : s.standing.Filled
  trace : ∀ e ∈ s.trace, e.Proper

theorem Standing.filled_none (vars : Variables) : Standing.Filled ⟨none, vars⟩ :=
  fun _ h => by cases h

theorem Step.only_proper {ps : List Piece} (h : ∀ c, .command c ∈ ps → c.Filled)
    (vars : Variables) : (Step.only ps vars).Proper :=
  ⟨h, Standing.filled_none vars, List.forall_mem_nil _⟩

theorem Step.drop_proper (i : Issue) (vars : Variables) : (Step.drop i vars).Proper := by
  refine ⟨fun c hc => ?_, Standing.filled_none vars, ?_⟩
  · cases List.mem_singleton.1 hc
  · exact Entry.warning_proper (.append i.apart_message)

theorem Step.verbatim_proper (body : List Char) (vars : Variables) :
    (Step.verbatim body vars).Proper := by
  refine Step.only_proper (fun c hc => ?_) vars
  obtain ⟨x, -, hx⟩ := List.mem_map.1 hc
  cases hx

/-- One command comes of a token. -/
theorem Step.command_proper {c : Command} (h : c.Filled) (vars : Variables) :
    (Step.only [.command c] vars).Proper := by
  refine Step.only_proper (fun c' hc => ?_) vars
  cases List.mem_singleton.1 hc
  exact h

theorem Opened.close_proper {o : Opened} (h : ¬ Text.IsBlank o.value) (vars : Variables) :
    (o.close vars).Proper := by
  unfold close
  dsimp only
  split
  · refine Step.command_proper ?_ vars
    rename_i e _
    cases e <;> first | exact h | trivial
  · refine ⟨fun c hc => ?_, Standing.filled_none _, vars.registerText_proper _ _ _⟩
    split at hc <;> cases List.mem_singleton.1 hc

theorem Keyword.apply_proper (k : Keyword) (word : String) {value : String}
    (h : ¬ Text.IsBlank value) (vars : Variables) : (k.apply word value vars).Proper := by
  have hopening : ∀ closing : Closing,
      Step.Proper ⟨[], ⟨some ⟨closing, word, value, []⟩, vars⟩, []⟩ := by
    intro closing
    refine ⟨fun _ hc => absurd hc List.not_mem_nil, fun o ho => ?_, List.forall_mem_nil _⟩
    cases ho
    exact h
  cases k with
  | bare b =>
    refine Step.command_proper ?_ vars
    cases b <;> trivial
  | timed t =>
    unfold apply
    dsimp only
    split
    · refine Step.command_proper ?_ vars
      cases t <;> trivial
    · exact Step.drop_proper _ vars
  | worded w =>
    refine Step.command_proper ?_ vars
    cases w <;> first | exact h | trivial
  | enclosing e => exact hopening _
  | register kind => exact hopening _
  | retrieve kind =>
    refine ⟨fun c hc => ?_, Standing.filled_none vars,
      Entry.proper_of_notes (vars.not_astray_retrieveAs _ _)⟩
    cases List.mem_singleton.1 hc

theorem readOpening_proper (body : List Char) (vars : Variables) :
    (readOpening body vars).Proper := by
  unfold readOpening
  rcases hparts : openingParts body with ⟨word, value?⟩
  dsimp only
  split
  · exact Step.verbatim_proper body vars
  · rename_i b _
    refine Step.command_proper ?_ vars
    cases b <;> trivial
  · split
    · exact Step.drop_proper _ vars
    · rename_i k value _ _ hvalue
      refine k.apply_proper word ?_ vars
      unfold openingParts at hparts
      obtain ⟨-, hvalue'⟩ := Prod.mk.inj hparts
      split at hvalue'
      · cases hvalue'
      · cases hvalue'
        exact Text.not_isBlank_trimChars hvalue
  · exact Step.drop_proper _ vars

theorem readGroup_proper (body : List Char) (vars : Variables) : (readGroup body vars).Proper := by
  unfold readGroup
  split
  · split
    · exact Step.drop_proper _ vars
    · exact Step.verbatim_proper body vars
  · exact readOpening_proper body vars

/-- **Each token is made proper sense of**, whatever was read before it. -/
theorem readToken_proper {here : Standing} (h : here.Filled) (t : Token) :
    (readToken here t).Proper := by
  have hmore : ∀ {o : Opened}, here.opened = some o → ∀ content : List Char,
      Step.Proper ⟨[], ⟨some { o with content := content }, here.vars⟩, []⟩ := by
    intro o ho content
    refine ⟨fun _ hc => absurd hc List.not_mem_nil, fun o' ho' => ?_, List.forall_mem_nil _⟩
    cases ho'
    exact h o ho
  unfold readToken
  cases ho : here.opened with
  | none =>
    cases t with
    | letter c =>
      refine Step.only_proper (fun c hc => ?_) here.vars
      cases List.mem_singleton.1 hc
    | group body => exact readGroup_proper body here.vars
  | some o =>
    cases t with
    | letter c => exact hmore ho _
    | group body =>
      dsimp only
      split
      · exact Opened.close_proper (h o ho) here.vars
      · exact hmore ho _

/-- What comes of reading tokens is proper. -/
theorem ofTokens_proper (ts : List Token) :
    ∀ {here : Standing}, here.Filled →
      (∀ c, .command c ∈ (Reading.ofTokens here ts).pieces → c.Filled) ∧
        ∀ e ∈ (Reading.ofTokens here ts).trace, e.Proper := by
  induction ts with
  | nil =>
    intro here _
    rw [Reading.ofTokens]
    split
    · exact ⟨fun _ hc => absurd hc List.not_mem_nil, List.forall_mem_nil _⟩
    · rename_i o _
      have hdrop := Step.drop_proper (.unclosed o.word) here.vars
      exact ⟨hdrop.commands, hdrop.trace⟩
  | cons t ts ih =>
    intro here h
    have htoken := readToken_proper h t
    obtain ⟨hcommands, htrace⟩ := ih htoken.standing
    refine ⟨fun c hc => ?_, List.forall_mem_append.2 ⟨htoken.trace, htrace⟩⟩
    exact (List.mem_append.1 hc).elim (htoken.commands c) (hcommands c)

/-- **Each tag of a sentence has the value that it needs.** -/
theorem filled_of_mem_beats {vars : Variables} {raw : String} {c : Command}
    (h : .tag c ∈ (Reading.ofText vars raw).sentence.beats) : c.Filled := by
  obtain ⟨p, hp, hc⟩ := List.mem_flatMap.1 h
  refine (ofTokens_proper (tokens raw.toList) (Standing.filled_none vars)).1 c ?_
  cases p with
  | command c' =>
    cases List.mem_singleton.1 hc
    exact hp
  | letter x => cases List.mem_singleton.1 hc
  | value text =>
    obtain ⟨x, -, hx⟩ := List.mem_map.1 hc
    cases hx
  | registration | issue => cases hc

theorem ofText_proper (vars : Variables) (raw : String) :
    ∀ e ∈ (Reading.ofText vars raw).trace, e.Proper :=
  (ofTokens_proper (tokens raw.toList) (Standing.filled_none vars)).2

end Markup

/-! ## Actions -/

/-- A field that is not blank, or what stands for it where there is none. -/
theorem Text.not_isBlank_of_present {s? : Option String} (h : present s? ≠ none) :
    ¬ IsBlank ((present s?).getD "") := by
  obtain ⟨s, hs⟩ := Option.ne_none_iff_exists'.1 h
  rw [hs]
  exact (present_eq_some_iff.1 hs).2

theorem Dialogue.theme?_filled {d : Dialogue} {theme : String} (h : d.theme? = some theme) :
    ¬ Text.IsBlank theme :=
  (Text.present_eq_some_iff.1 h).2

namespace Action

theorem deliver_proper (accepts : String → Bool) {target text : String}
    (ht : ¬ Text.IsBlank target) (hm : ¬ Text.IsBlank text) :
    ∀ e ∈ deliver accepts target text, e.Proper := by
  refine List.forall_mem_cons.2 ⟨⟨ht, hm⟩, ?_⟩
  split
  · exact List.forall_mem_nil _
  · exact Entry.failure_proper (ActionError.undelivered target).apart_message

/-- What an action comes to: proper entries, and a request with the name that it needs, if any. -/
structure Outcome.Proper (o : Outcome) : Prop where
  trace : ∀ e ∈ o.trace, e.Proper
  request : ∀ r, o.result = .ok (some r) → r.Filled

theorem Outcome.failed_proper (e : ActionError) {prelude : String}
    (h : Text.Apart (prelude ++ e.message)) : (Outcome.failed e prelude).Proper :=
  ⟨Entry.failure_proper h, fun _ hr => by cases hr⟩

/-- An action that lacks nothing has what its effect needs. -/
theorem perform_proper (accepts : String → Bool) (a : Action) : (a.perform accepts).Proper := by
  unfold perform
  dsimp only
  cases heffect : a.effect with
  | error e => exact Outcome.failed_proper e (.append ⟨_, rfl, by decide⟩)
  | ok e =>
    obtain ⟨-, hmessage, htarget⟩ := needs_of_effect heffect
    have hm : e.needsMessage = true → ¬ Text.IsBlank (a.message?.getD "") := fun hneeds =>
      Text.not_isBlank_of_present fun hnone => hmessage ⟨hneeds, hnone⟩
    have ht : e.needsTarget = true → ¬ Text.IsBlank (a.target?.getD "") := fun hneeds =>
      Text.not_isBlank_of_present fun hnone => htarget ⟨hneeds, hnone⟩
    cases e with
    | log severity =>
      exact ⟨List.forall_mem_singleton.2 (hm rfl), fun _ hr => by cases hr⟩
    | sendMessage =>
      refine ⟨deliver_proper accepts (ht rfl) (hm rfl), fun r hr => ?_⟩
      dsimp only at hr
      split at hr <;> cases hr
    | changeTheme | startBackgroundConversation =>
      refine ⟨List.forall_mem_nil _, fun r hr => ?_⟩
      cases hr
      exact hm rfl
    | closeConversation | closeBackgroundConversations =>
      refine ⟨List.forall_mem_nil _, fun r hr => ?_⟩
      cases hr
      trivial

/-- **Firing an action is proper**, whatever was supplied for it. -/
theorem performNamed_proper (accepts : String → Bool) (declared : List Action) (name : String)
    (supplied : Supplied) : (performNamed accepts declared name supplied).Proper := by
  unfold performNamed
  split
  · exact perform_proper accepts _
  · exact Outcome.failed_proper _ (String.empty_append ▸ ActionError.apart_message _)

end Action

/-! ## Checks and loading -/

/-- A check takes no note that tells of a dialogue that is not there. A link that leads nowhere is a
fault to it, which is worded otherwise. -/
def Audit.Apart {ε α : Type} (x : Audit ε α) : Prop := ∀ n ∈ x.notes, ¬ n.Astray

namespace Audit

variable {ε ε' α β : Type}

theorem Apart.bind {x : Audit ε α} {f : α → Audit ε β} (hx : x.Apart) (hf : ∀ a, (f a).Apart) :
    (x >>= f).Apart := by
  change (Audit.bind x f).Apart
  unfold Audit.bind
  split
  · exact List.forall_mem_append.2 ⟨hx, hf _⟩
  · exact hx

theorem apart_pass (a : α) : (pass a : Audit ε α).Apart := List.forall_mem_nil _

theorem apart_ofExcept (r : Except ε α) : (ofExcept r).Apart := List.forall_mem_nil _

theorem apart_warning {text : String} (h : Text.Apart text) :
    (note (.warning text) : Audit ε Unit).Apart :=
  Note.warning_not_astray h

theorem apart_require (p : Prop) [Decidable p] (e : ε) : (require p e).Apart := by
  unfold require
  split <;> exact List.forall_mem_nil _

theorem apart_noteIf (p : Prop) [Decidable p] {text : String} (h : Text.Apart text) :
    (noteIf p (.warning text) : Audit ε Unit).Apart := by
  unfold noteIf
  split
  · exact apart_warning h
  · exact apart_pass ()

theorem Apart.mapError {x : Audit ε α} (h : x.Apart) (f : ε → ε') : (x.mapError f).Apart := h

theorem Apart.each {f : α → Audit ε Unit} (h : ∀ a, (f a).Apart) :
    ∀ xs : List α, (Audit.each xs f).Apart
  | [] => apart_pass ()
  | x :: xs => (h x).bind fun _ => Apart.each h xs

end Audit

theorem Action.apart_audit (a : Action) : a.audit.Apart := by
  unfold audit
  refine .bind (Audit.apart_require _ _) fun _ => .bind (Audit.apart_ofExcept _) fun e => ?_
  cases a.effect with
  | ok _ => exact .bind (Audit.apart_pass ()) fun _ => Audit.apart_pass e
  | error lack =>
    exact .bind (Audit.apart_warning (.append lack.apart_message)) fun _ => Audit.apart_pass e

theorem Operand.apart_audit (o : Operand) : o.audit.Apart := by
  unfold audit
  split
  · exact .bind (Audit.apart_require _ _) fun _ =>
      .bind (Audit.apart_noteIf _ ⟨_, rfl, by decide⟩) fun _ => Audit.apart_pass none
  · refine .bind (Audit.apart_noteIf _ ⟨_, rfl, by decide⟩) fun _ => ?_
    split
    · exact List.forall_mem_nil _
    · exact List.forall_mem_nil _
    · exact .bind (Audit.apart_ofExcept _) fun kind =>
        .bind (Audit.apart_ofExcept _) fun _ => Audit.apart_pass (some kind)

theorem Condition.apart_audit (c : Condition) : c.audit.Apart := by
  have hkind : ∀ kind?, (auditKind c.comparison kind?).Apart := by
    intro kind?
    cases kind? with
    | none => exact Audit.apart_pass ()
    | some kind => exact Audit.apart_require _ _
  unfold audit
  split
  · refine .bind (Operand.apart_audit _) fun left => .bind (Operand.apart_audit _) fun right =>
      .bind (hkind left) fun _ => .bind (hkind right) fun _ => ?_
    unfold auditPair
    split
    · exact Audit.apart_require _ _
    · exact Audit.apart_pass ()
  · exact List.forall_mem_nil _

namespace Conversation

variable (c : Conversation)

theorem apart_auditActions (as : List Action) :
    ∀ seen : List String, (auditActions seen as).Apart := by
  induction as with
  | nil => exact fun _ => Audit.apart_pass ()
  | cons a as ih =>
    exact fun _ => .bind (a.apart_audit.mapError _) fun _ =>
      .bind (Audit.apart_require _ _) fun _ => ih _

theorem apart_auditIds (ds : List Dialogue) : ∀ seen : List Int32, (auditIds seen ds).Apart := by
  induction ds with
  | nil => exact fun _ => Audit.apart_pass ()
  | cons d ds ih => exact fun _ => .bind (Audit.apart_require _ _) fun _ => ih _

theorem apart_auditLink (dialogue : Int32) (link? : Option Int32) :
    (c.auditLink dialogue link?).Apart := by
  cases link? with
  | none => exact Audit.apart_pass ()
  | some id => exact Audit.apart_require _ _

theorem apart_auditNames (dialogue : Int32) (names : List String) :
    (c.auditNames dialogue names).Apart :=
  .each (fun _ => Audit.apart_require _ _) names

theorem apart_auditChoice (dialogue : Int32) (choice : Choice) :
    (c.auditChoice dialogue choice).Apart :=
  .bind (Audit.apart_require _ _) fun _ => .bind (c.apart_auditNames _ _) fun _ =>
    .bind (Audit.apart_require _ _) fun _ => c.apart_auditLink _ _

theorem apart_auditDialogue (d : Dialogue) : (c.auditDialogue d).Apart :=
  .bind (Audit.apart_require _ _) fun _ => .bind (Audit.apart_require _ _) fun _ =>
    .bind (Audit.apart_require _ _) fun _ => .bind (c.apart_auditLink _ _) fun _ =>
    .bind (c.apart_auditNames _ _) fun _ => .bind (.each (c.apart_auditChoice _) _) fun _ =>
    .bind (Audit.apart_noteIf _ ⟨_, rfl, by decide⟩) fun _ =>
    .each (fun k => k.apart_audit.mapError _) _

theorem apart_audit : c.audit.Apart :=
  .bind (apart_auditActions c.actions []) fun _ => .bind (Audit.apart_require _ _) fun _ =>
    .bind (apart_auditIds c.dialogues []) fun _ =>
    .bind (.each c.apart_auditDialogue c.dialogues) fun _ =>
    Audit.apart_noteIf _ ⟨_, rfl, by decide⟩

theorem not_astray_prepare : ∀ n ∈ c.prepare.notes, ¬ n.Astray := by
  intro n hn
  obtain ⟨d, -, hn⟩ := List.mem_flatMap.1 hn
  unfold forcedNote at hn
  split at hn
  · exact Note.warning_not_astray ⟨_, rfl, by decide⟩ n hn
  · cases hn

end Conversation

namespace Library

theorem apart_message (e : LoadError) : Text.Apart e.message := by
  cases e with
  | unreadableFile | emptyName => exact ⟨_, rfl, by decide⟩
  | malformed | invalid => exact .append (.append (.append ⟨_, rfl, by decide⟩))

theorem apart_noted {α : Type} {x : Audit LoadError α} (h : x.Apart) : (noted x).Apart := by
  unfold noted
  split
  · exact h
  · exact List.forall_mem_append.2 ⟨h, Note.failure_not_astray (apart_message _)⟩

theorem apart_auditName (name : String) {lack : String} (h : Text.Apart lack) :
    (auditName name lack).Apart := by
  unfold auditName
  split
  · exact Note.failure_not_astray h
  · exact Audit.apart_pass ()

theorem apart_shelve (l : Library) (name : String) (c : Conversation) :
    (l.shelve name c).Apart := by
  refine List.forall_mem_append.2 ⟨c.not_astray_prepare, ?_⟩
  split
  · exact Note.warning_not_astray ⟨_, rfl, by decide⟩
  · exact List.forall_mem_nil _

theorem apart_insert (l : Library) (name : String) (c : Conversation) :
    (l.insert name c).Apart :=
  .bind (apart_auditName name ⟨_, rfl, by decide⟩) fun _ =>
    .bind (apart_noted (c.apart_audit.mapError _)) fun _ => l.apart_shelve name c

/-- Not even a script that is refused for a link that leads nowhere is noted as one that has been
led astray. -/
theorem apart_load (l : Library) (name text : String) : (l.load name text).Apart :=
  .bind (apart_auditName name ⟨_, rfl, by decide⟩) fun _ =>
    .bind (apart_noted (Audit.apart_ofExcept _)) fun c => l.apart_insert name c

theorem not_astray_retrieve (l : Library) (name : String) :
    ∀ n ∈ (l.retrieve name).notes, ¬ n.Astray := by
  unfold retrieve
  split
  · exact List.forall_mem_nil _
  · exact Note.failure_not_astray ⟨_, rfl, by decide⟩

end Library

end Colloquy
