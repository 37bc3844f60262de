import Colloquy.Proofs.Concatenation
import Colloquy.Proofs.Markup.Brackets
import Colloquy.Proofs.Markup.Vocabulary

/-!
# Proofs/Markup/Verbatim — what is left as it stands

Text is left as it stands in two places. A sentence none of whose bracket groups has a keyword is
shown character for character (`ofText_of_unknown`). And the content of a complex tag is whatever
stands between its opening and its closing tag, brackets, other tags and all (`ofText_element`): as
long as no group of it closes the tag, reading adds its raw text to the content, token by token
(`ofTokens_content`).
-/

namespace Colloquy.Markup

/-! ## Sentences without a keyword -/

namespace Reading

/-- Tokens without a keyword are read as the text that they stand for. -/
theorem ofTokens_of_unknown (vars : Variables) :
    ∀ ts : List Token, (∀ body, .group body ∈ ts → keyword? body = none) →
      ofTokens ⟨none, vars⟩ ts = ⟨(verbatim ts).map .letter, vars, []⟩ := by
  intro ts h
  induction ts with
  | nil => rfl
  | cons t ts ih =>
    have hstep : readToken ⟨none, vars⟩ t = .only (t.verbatim.map .letter) vars := by
      cases t with
      | letter c => rfl
      | group body => exact readGroup_of_unknown (h body (List.mem_cons_self ..)) vars
    rw [ofTokens, hstep, Step.only, ih fun body hmem => h body (List.mem_cons_of_mem _ hmem),
      verbatim_cons, List.map_append]
    rfl

/-- **A sentence in which no group has a keyword** is shown character for character, whatever
brackets it has, and nothing else comes of it. -/
theorem ofText_of_unknown {vars : Variables} {raw : String}
    (h : ∀ body, HasGroup raw.toList body → keyword? body = none) :
    let r := ofText vars raw
    r.sentence.text = raw ∧ r.sentence.tags = [] ∧ r.sentence.issues = [] ∧ r.vars = vars ∧
      r.trace = [] := by
  intro r
  have hr : r = ⟨raw.toList.map .letter, vars, []⟩ := by
    have hread := ofTokens_of_unknown vars (tokens raw.toList) fun body hmem =>
      h body (mem_tokens_iff.1 hmem)
    rwa [verbatim_tokens] at hread
  have hbeats : r.sentence.beats = raw.toList.map .character := by
    rw [hr]
    exact Piece.beats_letters _
  have hissues : r.sentence.issues = [] := by
    rw [hr]
    exact Piece.issues_letters _
  refine ⟨?_, ?_, hissues, by rw [hr], by rw [hr]⟩
  · rw [Sentence.text, Sentence.visible, hbeats, characters_map_character, String.ofList_toList]
  · rw [Sentence.tags, hbeats, tagsFrom_map_character]

/-- Words that are no keywords, stray brackets, and one that is never closed. -/
theorem ofText_of_unknown_stray :
    let raw := "I <3 you <b>a lot</b> <  i = wait > </ wait=1> << x <wait"
    let r := ofText .empty raw
    (∀ body, HasGroup raw.toList body → keyword? body = none) ∧
      r.sentence.text = raw ∧ r.sentence.tags = [] ∧ r.sentence.issues = [] := by
  intro raw r
  have h : ∀ body, HasGroup raw.toList body → keyword? body = none := by decide +kernel
  obtain ⟨htext, htags, hissues, -⟩ := @ofText_of_unknown .empty raw h
  exact ⟨h, htext, htags, hissues⟩

end Reading

/-! ## Complex tags -/

/-- The word of a keyword that encloses a content. -/
def Enclosing.word : Enclosing → String
  | sendMessage => "sendmessage"
  | changeSprite => "changesprite"
  | performWithMessage => "actionwithmessage"
  | performWithTarget => "actionwithtarget"

namespace Closing

/-- The word of a complex tag. -/
def word : Closing → String
  | command e => e.word
  | register kind => "register" ++ kind.name

/-- The keyword of a complex tag. -/
def keyword : Closing → Keyword
  | command e => .enclosing e
  | register kind => .register kind

theorem ofWord?_word (closing : Closing) : Keyword.ofWord? closing.word = some closing.keyword := by
  cases closing with
  | command e => cases e <;> rfl
  | register kind => exact Keyword.ofWord?_verb_name .register kind

theorem lower_word (closing : Closing) : Text.Lower closing.word.toList := by
  cases closing with
  | command e => cases e <;> decide +kernel
  | register kind => exact Verb.register.lower_word_name kind

end Closing

/-! ## Tags as they are written -/

theorem toList_tag (word value : String) :
    (word ++ "=" ++ value).toList = word.toList ++ '=' :: value.toList := by
  simp [String.toList_append]

section

variable {word value : String} (hword : Text.Lower word.toList)

include hword

theorem ne_of_mem_word {c : Char} (h : c ∈ word.toList) : c ≠ '=' ∧ c ≠ '<' ∧ c ≠ '>' := by
  have hlower := hword c h
  refine ⟨?_, ?_, ?_⟩ <;>
  · rintro rfl
    exact absurd hlower (by decide)

theorem unbracketed_word : Unbracketed word.toList :=
  ⟨fun h => (ne_of_mem_word hword h).2.1 rfl, fun h => (ne_of_mem_word hword h).2.2 rfl⟩

theorem unbracketed_tag (h : Unbracketed value.toList) :
    Unbracketed (word ++ "=" ++ value).toList := by
  rw [toList_tag]
  exact unbracketed_append (unbracketed_word hword) (unbracketed_cons.2 ⟨by decide, h⟩)

theorem tagWord_tag : tagWord (word ++ "=" ++ value).toList = word := by
  have htake : (word ++ "=" ++ value).toList.takeWhile (· ≠ '=') = word.toList := by
    rw [toList_tag, List.takeWhile_append_of_pos, List.takeWhile_cons_of_neg (by decide),
      List.append_nil]
    exact fun c hc => decide_eq_true (ne_of_mem_word hword hc).1
  have htrim : Text.trim word = word := by
    rw [Text.trim, Text.trimChars_eq_self_iff.2 hword.trimmed, String.ofList_toList]
  rw [tagWord, htake, String.ofList_toList, htrim, ← String.toList_inj, Text.toList_lowerAscii,
    hword.map_toLower]

theorem closingWord?_tag : closingWord? (word ++ "=" ++ value).toList = none := by
  refine Option.eq_none_iff_forall_ne_some.2 fun closer h => ?_
  have hhead := head?_tagWord h
  rw [tagWord_tag hword] at hhead
  exact absurd (hword _ (List.mem_of_mem_head? hhead)) (by decide)

theorem openingParts_tag (htrim : Text.trim value = value) :
    openingParts (word ++ "=" ++ value).toList = (word, some value) := by
  have hchars : Text.trimChars value.toList = value.toList := by
    rw [← String.toList_ofList (l := Text.trimChars value.toList)]
    exact congrArg String.toList htrim
  have hbody : Text.trimChars (word ++ "=" ++ value).toList = (word ++ "=" ++ value).toList := by
    refine Text.trimChars_eq_self_iff.2 ?_
    rw [toList_tag]
    have hequals : Text.Trimmed ['='] :=
      Text.trimmed_of_forall (List.forall_mem_singleton.2 (by decide))
    exact hword.trimmed.append (hequals.append (Text.trimChars_eq_self_iff.1 hchars))
  have hdrop : (word ++ "=" ++ value).toList.dropWhile (· ≠ '=') = '=' :: value.toList := by
    rw [toList_tag, List.dropWhile_append_of_pos, List.dropWhile_cons_of_neg (by decide)]
    exact fun c hc => decide_eq_true (ne_of_mem_word hword hc).1
  refine Prod.ext ((openingParts_fst _).trans (tagWord_tag hword)) ?_
  simp only [openingParts, hbody, hdrop, hchars, String.ofList_toList]

end

namespace Closing

variable (closing : Closing)

/-- What stands between the brackets of the opening tag. -/
def opener (value : String) : String := closing.word ++ "=" ++ value

/-- What stands between the brackets of the closing tag. -/
def closer : String := "/" ++ closing.word

/-- A complex tag as it is written, around its content. -/
def element (value content : String) : String :=
  "<" ++ closing.opener value ++ ">" ++ content ++ "<" ++ closing.closer ++ ">"

variable {closing} {value : String}

theorem unbracketed_closer : Unbracketed closing.closer.toList := by
  rw [closer, String.toList_append]
  exact unbracketed_cons.2 ⟨by decide, unbracketed_word closing.lower_word⟩

theorem closingWord?_closer : closingWord? closing.closer.toList = some closing.word := by
  refine closingWord?_of_lowerAscii closing.lower_word ?_
  rw [← String.toList_inj, Text.toList_lowerAscii, closer, String.toList_append, List.map_append,
    closing.lower_word.map_toLower]
  rfl

/-- The opening tag opens the complex tag, with nothing in it yet. -/
theorem opens?_opener (htrim : Text.trim value = value) (hne : value ≠ "") :
    opens? (closing.opener value).toList = some ⟨closing, closing.word, value, []⟩ := by
  have hkeyword : Keyword.closing? closing.keyword = some closing := by cases closing <;> rfl
  rw [opener, opens?, closingWord?_tag closing.lower_word]
  simp only [tagWord_tag closing.lower_word, ofWord?_word, Option.bind_some, hkeyword, tagValue?,
    openingParts_tag closing.lower_word htrim]
  simp [hne]

/-- It is two groups around its content. -/
theorem tokens_element (hvalue : Unbracketed value.toList) (before content rest : String) :
    tokens (before ++ closing.element value content ++ rest).toList =
      tokens before.toList ++ .group (closing.opener value).toList ::
        (tokens content.toList ++ .group closing.closer.toList :: tokens rest.toList) := by
  have hchars : (before ++ closing.element value content ++ rest).toList =
      before.toList ++ (Token.group (closing.opener value).toList).verbatim ++
        (content.toList ++ (Token.group closing.closer.toList).verbatim ++ rest.toList) := by
    simp [element, Token.verbatim, String.toList_append]
  have hopener : Unbracketed (closing.opener value).toList :=
    unbracketed_tag closing.lower_word hvalue
  rw [hchars, tokens_append_group hopener, tokens_append_group unbracketed_closer]

end Closing

/-! ## Contents -/

namespace Reading

/-- Inside of a complex tag, tokens that do not close it are content. -/
theorem ofTokens_content (vars : Variables) (us ts : List Token) :
    ∀ o : Opened, (∀ body, .group body ∈ ts → o.isClosedBy body = false) →
      ofTokens ⟨some o, vars⟩ (ts ++ us) =
        ofTokens ⟨some { o with content := o.content ++ verbatim ts }, vars⟩ us := by
  induction ts with
  | nil =>
    intro o _
    rw [verbatim_nil, List.append_nil, List.nil_append]
  | cons t ts ih =>
    intro o h
    have hstep := readToken_content
      (fun body heq => h body (heq ▸ List.mem_cons_self ..)) vars
    have hrest := ih { o with content := o.content ++ t.verbatim } fun body hmem =>
      h body (List.mem_cons_of_mem _ hmem)
    rw [List.cons_append, ofTokens, hstep, hrest, verbatim_cons, List.append_assoc]
    rfl

/-- A group that opens a complex tag, a content, and a group that closes the tag are read as one
piece, and reading goes on behind them. -/
theorem ofTokens_element {o : Opened} {opener closer : List Char} {ts : List Token}
    (hopener : opens? opener = some o) (hcloser : o.isClosedBy closer = true)
    (hts : ∀ body, .group body ∈ ts → o.isClosedBy body = false)
    (vars : Variables) (us : List Token) :
    let s := Opened.close { o with content := o.content ++ verbatim ts } vars
    let r := ofTokens s.standing us
    ofTokens ⟨none, vars⟩ (.group opener :: (ts ++ .group closer :: us)) =
      ⟨s.pieces ++ r.pieces, r.vars, s.trace ++ r.trace⟩ := by
  intro s r
  have hopen : readToken ⟨none, vars⟩ (.group opener) = ⟨[], ⟨some o, vars⟩, []⟩ :=
    readGroup_of_opens? hopener vars
  have hclose : readToken ⟨some { o with content := o.content ++ verbatim ts }, vars⟩
      (.group closer) = s := if_pos hcloser
  rw [ofTokens, hopen, ofTokens_content vars _ ts o hts, ofTokens, hclose]
  rfl

/-- Where no complex tag is left open, none is open behind the tokens. -/
theorem opened_standingAfter {vars : Variables} {raw : String}
    (h : ∀ word, .unclosed word ∉ (ofText vars raw).sentence.issues) :
    (standingAfter ⟨none, vars⟩ (tokens raw.toList)).opened = none := by
  refine Option.eq_none_iff_forall_ne_some.2 fun o ho => ?_
  exact h o.word (List.mem_filterMap.2 ⟨_, issue_unclosed_mem_ofTokens _ ho, rfl⟩)

/-- A complex tag between two texts is a piece between what comes of them. -/
theorem ofText_element_eq {vars : Variables} {closing : Closing}
    {before value content : String}
    (hbefore : ∀ word, .unclosed word ∉ (ofText vars before).sentence.issues)
    (htrim : Text.trim value = value) (hne : value ≠ "") (hvalue : Unbracketed value.toList)
    (hcontent : ∀ body, HasGroup content.toList body →
      closingWord? body ≠ some "" ∧ closingWord? body ≠ some closing.word) (rest : String) :
    let r := ofText vars before
    let o : Opened := ⟨closing, closing.word, value, content.toList⟩
    let r' := ofText (bindAll r.vars o.outcome.registration?.toList) rest
    ofText vars (before ++ closing.element value content ++ rest) =
      ⟨r.pieces ++ o.outcome :: r'.pieces, r'.vars,
        r.trace ++ ((o.close r.vars).trace ++ r'.trace)⟩ := by
  intro r o r'
  have hcloser : Opened.isClosedBy ⟨closing, closing.word, value, []⟩ closing.closer.toList =
      true := Opened.isClosedBy_iff.2 (.inr Closing.closingWord?_closer)
  have hopen : ∀ body, .group body ∈ tokens content.toList →
      Opened.isClosedBy ⟨closing, closing.word, value, []⟩ body = false := fun body hmem =>
    Bool.eq_false_iff.2 fun hclosed =>
      (Opened.isClosedBy_iff.1 hclosed).elim (hcontent body (mem_tokens_iff.1 hmem)).1
        (hcontent body (mem_tokens_iff.1 hmem)).2
  have happend (us : List Token) :
      let x := ofTokens ⟨none, r.vars⟩ us
      ofTokens ⟨none, vars⟩ (tokens before.toList ++ us) =
        ⟨r.pieces ++ x.pieces, x.vars, r.trace ++ x.trace⟩ :=
    ofTokens_append us _ (opened_standingAfter hbefore)
  have helement := ofTokens_element (Closing.opens?_opener htrim hne) hcloser hopen r.vars
    (tokens rest.toList)
  obtain ⟨trace, hclose⟩ := o.close_eq r.vars
  have htrace : (o.close r.vars).trace = trace := by rw [hclose]
  simp only [List.nil_append, verbatim_tokens] at helement
  rw [hclose] at helement
  rw [ofText, Closing.tokens_element hvalue, happend, helement, htrace]
  rfl

/-- **The content of a complex tag is taken as it stands.** Where no complex tag is open, such a tag
is read as one piece, with the content character for character, and what follows it as if it stood
alone, for the variables that the tag leaves. -/
theorem ofText_element {vars : Variables} {closing : Closing}
    {before value content rest : String}
    (hbefore : ∀ word, .unclosed word ∉ (ofText vars before).sentence.issues)
    (htrim : Text.trim value = value) (hne : value ≠ "") (hvalue : Unbracketed value.toList)
    (hcontent : ∀ body, HasGroup content.toList body →
      closingWord? body ≠ some "" ∧ closingWord? body ≠ some closing.word) :
    let r := ofText vars before
    let o : Opened := ⟨closing, closing.word, value, content.toList⟩
    let p := o.outcome
    let r' := ofText (bindAll r.vars p.registration?.toList) rest
    let whole := ofText vars (before ++ closing.element value content ++ rest)
    whole.sentence.text = r.sentence.text ++ r'.sentence.text ∧
      whole.sentence.tags = r.sentence.tags ++ p.command?.toList.map (⟨r.sentence.size, ·⟩) ++
        r'.sentence.tags.map (.shift r.sentence.size) ∧
      whole.sentence.issues = r.sentence.issues ++ p.issue?.toList ++ r'.sentence.issues ∧
      whole.vars = r'.vars ∧ whole.trace = r.trace ++ (o.close r.vars).trace ++ r'.trace := by
  intro r o p r' whole
  have hwhole : whole = ⟨r.pieces ++ p :: r'.pieces, r'.vars,
      r.trace ++ ((o.close r.vars).trace ++ r'.trace)⟩ :=
    ofText_element_eq hbefore htrim hne hvalue hcontent rest
  have hbeats : whole.sentence.beats = r.sentence.beats ++ (p.beats ++ r'.sentence.beats) := by
    rw [hwhole]
    exact List.flatMap_append
  have hissues : (p :: r'.pieces).filterMap Piece.issue? =
      p.issue?.toList ++ r'.sentence.issues := by
    rw [List.filterMap_cons]
    cases p.issue? <;> rfl
  refine ⟨?_, ?_, ?_, ?_, ?_⟩
  · rw [Sentence.text, Sentence.visible, hbeats, characters_append, characters_append,
      Opened.characters_beats_outcome, List.nil_append, String.ofList_append]
    rfl
  · rw [Sentence.tags, hbeats, tagsFrom_append, Opened.tagsFrom_beats_outcome, tagsFrom_add,
      Nat.zero_add, ← List.append_assoc]
    rfl
  · rw [hwhole, List.append_assoc, ← hissues]
    exact List.filterMap_append
  · rw [hwhole]
  · rw [hwhole, List.append_assoc]

/-- A message with tags, stray brackets and a foreign closing tag in it, behind a binding that one
of the tags asks for. -/
theorem ofText_element_knock :
    let before := "<registerint=gold>7</registerint>Él "
    let content := "<i>Knock</i> < <retrieveint=gold></registerint><wait=x> <"
    let rest := "<retrieveint=gold>!<hidesprite>"
    let r := ofText .empty before
    let r' := ofText r.vars rest
    let whole := ofText .empty
      (before ++ (Closing.command .sendMessage).element "Door" content ++ rest)
    (∀ word, .unclosed word ∉ r.sentence.issues) ∧ Text.trim "Door" = "Door" ∧
      Unbracketed "Door".toList ∧
      (∀ body, HasGroup content.toList body →
        closingWord? body ≠ some "" ∧ closingWord? body ≠ some "sendmessage") ∧
      whole.sentence.text = r.sentence.text ++ r'.sentence.text ∧
      whole.sentence.tags = r.sentence.tags ++
        [⟨r.sentence.size, .sendMessage "Door" content⟩] ++
          r'.sentence.tags.map (.shift r.sentence.size) ∧
      whole.vars = r'.vars ∧ whole.sentence.text = "Él 7!" ∧
      whole.sentence.tags.map (·.index) = [3, 5] := by
  intro before content rest r r' whole
  have hissues : r.sentence.issues = [] := by decide +kernel
  have hbefore : ∀ word, .unclosed word ∉ r.sentence.issues := by simp [hissues]
  have htrim : Text.trim "Door" = "Door" := by decide +kernel
  have hvalue : Unbracketed "Door".toList := by decide
  have hcontent : ∀ body, HasGroup content.toList body →
      closingWord? body ≠ some "" ∧ closingWord? body ≠ some "sendmessage" := by decide +kernel
  have hread : whole.sentence.text = "Él 7!" ∧
      whole.sentence.tags.map (·.index) = [3, 5] := by decide +kernel
  obtain ⟨htext, htags, -, hvars, -⟩ := @ofText_element .empty (.command .sendMessage) before "Door"
    content rest hbefore htrim (by decide) hvalue hcontent
  refine ⟨hbefore, htrim, hvalue, hcontent, htext, htags.trans ?_, hvars, hread⟩
  simp only [Opened.outcome, Enclosing.command, Piece.command?, String.ofList_toList]
  rfl

end Reading

end Colloquy.Markup
