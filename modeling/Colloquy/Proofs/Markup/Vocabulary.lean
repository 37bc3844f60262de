import Colloquy.Proofs.Markup.Group

/-!
# Proofs/Markup/Vocabulary — which words are keywords

A keyword is a word of the vocabulary, or a verb with the name of a kind behind it
(`Keyword.ofWord?_cases`). The name of a kind is read as it may be written anywhere, white space
around it included. So `register int` is a keyword too (`readAs_keyword_iff`), although a closing
tag is compared with the word as it was written, and `/registerint` does not close that one
(`isClosedBy_register_iff`). `variable_tags` puts this together, and
`spaced_registration_never_closed` is a sentence that loses its binding so.
-/

namespace Colloquy

/-! ## Names of kinds -/

namespace Kind

theorem find?_name (k : Kind) : (all.find? fun j => j.name == k.name) = some k := by
  cases k <;> rfl

/-- A kind goes by its name, whatever white space surrounds it and in whatever case it is
written. -/
theorem ofName_eq_ok_iff {name : String} {k : Kind} :
    ofName name = .ok k ↔ Text.lowerAscii (Text.trim name) = k.name := by
  unfold ofName
  constructor
  · intro h
    generalize Text.lowerAscii (Text.trim name) = lowered at h ⊢
    split at h
    · rename_i found hfound
      cases h
      have hname := List.find?_some hfound
      exact (beq_iff_eq.1 hname).symm
    · cases h
  · intro h
    rw [h, find?_name]

theorem ofName_name (k : Kind) : ofName k.name = .ok k := by cases k <;> rfl

theorem toOption_ofName_eq_some_iff {name : String} {k : Kind} :
    (ofName name).toOption = some k ↔ ofName name = .ok k := by
  cases ofName name <;> simp [Except.toOption]

theorem lower_name (k : Kind) : Text.Lower k.name.toList := by cases k <;> decide +kernel

end Kind

namespace Markup

/-! ## Words of the vocabulary -/

/-- What a tag may do with a variable: bind it, or show what it holds. -/
inductive Verb
  | register
  | retrieve

/-- The word of a verb, which the name of a kind follows. -/
def Verb.word : Verb → String
  | register => "register"
  | retrieve => "retrieve"

theorem Verb.lower_word (verb : Verb) : Text.Lower verb.word.toList := by
  cases verb <;> decide +kernel

theorem Verb.lower_word_name (verb : Verb) (kind : Kind) :
    Text.Lower (verb.word ++ kind.name).toList := by
  rw [String.toList_append]
  exact verb.lower_word.append kind.lower_name

/-- The keyword of a verb for variables of a kind. -/
def Verb.keyword : Verb → Kind → Keyword
  | register => .register
  | retrieve => .retrieve

namespace Keyword

theorem after?_eq_some_iff {word text rest : String} :
    after? word text = some rest ↔ text = word ++ rest := by
  rw [after?, ← String.toList_inj, String.toList_append]
  constructor
  · intro h
    split_ifs at h with hprefix
    obtain ⟨tail, htail⟩ := List.isPrefixOf_iff_prefix.1 hprefix
    rw [Option.some_inj] at h
    rw [← h, String.toList_ofList, ← htail, List.drop_left]
  · intro h
    rw [if_pos (List.isPrefixOf_iff_prefix.2 ⟨_, h.symm⟩), h, List.drop_left, String.ofList_toList]

theorem after?_of_mem_vocabulary (verb : Verb) :
    ∀ entry ∈ vocabulary, after? verb.word entry.1 = none := by
  cases verb <;> decide +kernel

/-- No verb begins a word of the vocabulary. -/
theorem lookup_verb (verb : Verb) (name : String) :
    vocabulary.lookup (verb.word ++ name) = none := by
  refine List.lookup_eq_none_iff.2 fun entry hentry => bne_iff_ne.2 fun heq => ?_
  have hnone := after?_of_mem_vocabulary verb entry hentry
  rw [after?_eq_some_iff.2 heq.symm] at hnone
  cases hnone

/-- Behind a verb, the name of a kind makes a keyword. -/
theorem ofWord?_verb (verb : Verb) (name : String) :
    ofWord? (verb.word ++ name) = (Kind.ofName name).toOption.map verb.keyword := by
  rw [ofWord?, lookup_verb]
  cases verb with
  | register =>
    have hafter : after? "register" (Verb.register.word ++ name) = some name :=
      after?_eq_some_iff.2 rfl
    simp only [hafter]
    rfl
  | retrieve =>
    have hregister : after? "register" (Verb.retrieve.word ++ name) = none := by
      refine Option.eq_none_iff_forall_ne_some.2 fun rest h => ?_
      have hthird := congrArg (·.toList[2]?) (after?_eq_some_iff.1 h)
      simp [Verb.word, String.toList_append] at hthird
    have hafter : after? "retrieve" (Verb.retrieve.word ++ name) = some name :=
      after?_eq_some_iff.2 rfl
    simp only [hregister, hafter]
    rfl

theorem ofWord?_verb_name (verb : Verb) (kind : Kind) :
    ofWord? (verb.word ++ kind.name) = some (verb.keyword kind) := by
  rw [ofWord?_verb, Kind.ofName_name]
  rfl

/-- **A keyword is a word of the vocabulary**, or a verb with the name of a kind. -/
theorem ofWord?_cases {word : String} {k : Keyword} (h : ofWord? word = some k) :
    (word, k) ∈ vocabulary ∨
      ∃ verb name kind, word = verb.word ++ name ∧ Kind.ofName name = .ok kind ∧
        k = Verb.keyword verb kind := by
  rw [ofWord?] at h
  split at h
  · rename_i found hfound
    cases h
    obtain ⟨before, after, heq, -⟩ := List.lookup_eq_some_iff.1 hfound
    exact .inl (heq ▸ List.mem_append_right before (List.mem_cons_self ..))
  · split at h
    · rename_i name hname
      obtain ⟨kind, hkind, rfl⟩ := Option.map_eq_some_iff.1 h
      exact .inr ⟨.register, name, kind, after?_eq_some_iff.1 hname,
        Kind.toOption_ofName_eq_some_iff.1 hkind, rfl⟩
    · split at h
      · rename_i name hname
        obtain ⟨kind, hkind, rfl⟩ := Option.map_eq_some_iff.1 h
        exact .inr ⟨.retrieve, name, kind, after?_eq_some_iff.1 hname,
          Kind.toOption_ofName_eq_some_iff.1 hkind, rfl⟩
      · cases h

/-- The keywords for variables are the verbs with the name of a kind. -/
theorem ofWord?_eq_some_keyword_iff {verb : Verb} {kind : Kind} {word : String} :
    ofWord? word = some (verb.keyword kind) ↔
      ∃ name, word = verb.word ++ name ∧ Kind.ofName name = .ok kind := by
  constructor
  · intro h
    obtain hmem | ⟨verb', name, kind', hword, hname, heq⟩ := ofWord?_cases h
    · cases verb <;> simp [vocabulary, Verb.keyword] at hmem
    · cases verb <;> cases verb' <;> cases heq <;> exact ⟨name, hword, hname⟩
  · rintro ⟨name, rfl, hname⟩
    rw [ofWord?_verb, hname]
    rfl

end Keyword

/-! ## Tags for variables -/

/-- The word of a tag is in lower case. -/
theorem toLower_of_mem_tagWord {body : List Char} {c : Char} (h : c ∈ (tagWord body).toList) :
    c.toLower = c := by
  rw [tagWord, Text.toList_lowerAscii] at h
  obtain ⟨d, -, rfl⟩ := List.mem_map.1 h
  exact Text.toLower_toLower d

/-- It has no white space at its ends. -/
theorem trimmed_tagWord (body : List Char) : Text.Trimmed (tagWord body).toList := by
  rw [tagWord, Text.toList_lowerAscii, Text.trim, String.toList_ofList,
    ← Text.trimChars_map_toLower]
  exact Text.trimmed_trimChars _

/-- What stands behind a verb in the word of a tag names a kind if it is the name of it, but for
white space between the two. -/
theorem ofName_eq_ok_iff_of_tagWord {body : List Char} {verb : Verb} {name : String}
    (h : tagWord body = verb.word ++ name) {kind : Kind} :
    Kind.ofName name = .ok kind ↔ ∃ gap, Text.IsBlank gap ∧ name = gap ++ kind.name := by
  have hchars : (tagWord body).toList = verb.word.toList ++ name.toList := by
    rw [h, String.toList_append]
  have hlower : name.toList.map Char.toLower = name.toList := by
    refine (List.map_congr_left fun c hc => ?_).trans (List.map_id _)
    have hmem : c ∈ (tagWord body).toList := by
      rw [hchars]
      exact List.mem_append_right _ hc
    exact toLower_of_mem_tagWord hmem
  have hlast {c : Char} (hc : name.toList.getLast? = some c) : Text.isSpace c = false := by
    refine (trimmed_tagWord body).last c ?_
    rw [hchars, List.getLast?_append, hc, Option.some_or]
    rfl
  rw [Kind.ofName_eq_ok_iff, ← String.toList_inj, Text.toList_lowerAscii, Text.trim,
    String.toList_ofList, ← Text.trimChars_map_toLower, hlower, Text.trimChars_eq_iff]
  constructor
  · rintro ⟨-, before, after, hbefore, hafter, hname⟩
    have hnone : after = [] := by
      by_contra hne
      have hspace := hafter _ (List.getLast_mem hne)
      rw [hlast (by rw [hname, List.getLast?_append_of_ne_nil _ hne,
        List.getLast?_eq_some_getLast])] at hspace
      cases hspace
    refine ⟨String.ofList before, Text.isBlank_iff.2 (by rwa [String.toList_ofList]), ?_⟩
    rw [← String.toList_inj, hname, hnone, List.append_nil, String.toList_append,
      String.toList_ofList]
  · rintro ⟨gap, hgap, rfl⟩
    exact ⟨kind.lower_name.trimmed, gap.toList, [], Text.isBlank_iff.1 hgap, Text.blank_nil,
      by simp⟩

/-- A group is an opening tag of a keyword: it is no closing tag, and has the keyword. -/
def ReadAs (body : List Char) (k : Keyword) : Prop :=
  closingWord? body = none ∧ keyword? body = some k

/-- A closing tag begins with a slash, also what would be its word as an opening one. -/
theorem head?_tagWord {body : List Char} {word : String} (h : closingWord? body = some word) :
    (tagWord body).toList.head? = some '/' := by
  rw [← openingParts_fst, openingParts]
  unfold closingWord? at h
  split at h
  · rename_i rest hrest
    have hslash : Text.isSpace '/' = false := by decide
    rw [hrest, Text.toList_lowerAscii, String.toList_ofList, List.takeWhile_cons_of_pos (by decide),
      List.head?_map, Text.head?_trimChars_cons hslash]
    rfl
  · cases h

theorem head?_verb (verb : Verb) (name : String) :
    (verb.word ++ name).toList.head? = some 'r' := by
  rw [String.toList_append, List.head?_append]
  cases verb <;> rfl

/-- **The tags for variables** are those whose word is a verb and the name of a kind, with nothing
but white space between the two. -/
theorem readAs_keyword_iff {body : List Char} {verb : Verb} {kind : Kind} :
    ReadAs body (verb.keyword kind) ↔
      ∃ gap, Text.IsBlank gap ∧ tagWord body = verb.word ++ gap ++ kind.name := by
  constructor
  · rintro ⟨hc, hk⟩
    rw [keyword?_of_opening hc] at hk
    obtain ⟨name, hword, hname⟩ := Keyword.ofWord?_eq_some_keyword_iff.1 hk
    obtain ⟨gap, hgap, rfl⟩ := (ofName_eq_ok_iff_of_tagWord hword).1 hname
    exact ⟨gap, hgap, by rw [hword, String.append_assoc]⟩
  · rintro ⟨gap, hgap, hword⟩
    rw [String.append_assoc] at hword
    have hc : closingWord? body = none := by
      refine Option.eq_none_iff_forall_ne_some.2 fun word h => ?_
      have hhead := head?_tagWord h
      rw [hword, head?_verb] at hhead
      cases hhead
    refine ⟨hc, ?_⟩
    rw [keyword?_of_opening hc]
    exact Keyword.ofWord?_eq_some_keyword_iff.2
      ⟨_, hword, (ofName_eq_ok_iff_of_tagWord hword).2 ⟨gap, hgap, rfl⟩⟩

/-- A group has no keyword if it is no closing tag, and its word is neither in the vocabulary nor
one for variables. -/
theorem keyword?_eq_none {body : List Char} (hc : closingWord? body = none)
    (hwords : tagWord body ∉ Keyword.vocabulary.map Prod.fst)
    (hverbs : ∀ (verb : Verb) (kind : Kind) (gap : String), Text.IsBlank gap →
      tagWord body ≠ verb.word ++ gap ++ kind.name) : keyword? body = none := by
  refine Option.eq_none_iff_forall_ne_some.2 fun k hk => ?_
  rw [keyword?_of_opening hc] at hk
  obtain hmem | ⟨verb, name, kind, hword, hname, -⟩ := Keyword.ofWord?_cases hk
  · exact hwords (List.mem_map.2 ⟨_, hmem, rfl⟩)
  · obtain ⟨gap, hgap, rfl⟩ := (ofName_eq_ok_iff_of_tagWord hword).1 hname
    exact hverbs verb kind gap hgap (by rw [hword, String.append_assoc])

/-! ## Closing tags -/

theorem eq_slash_of_toLower {c : Char} (h : c.toLower = '/') : c = '/' := by
  by_cases hupper : 65 ≤ c.toNat ∧ c.toNat ≤ 90
  · have hlower := Text.toNat_toLower_of_upper hupper
    rw [h] at hlower
    have hslash : '/'.toNat = 47 := rfl
    omega
  · rwa [Text.toLower_of_not_upper hupper] at h

/-- The word of a closing tag, in whatever case it is written. -/
theorem closingWord?_of_lowerAscii {closer word : String}
    (hword : Text.Lower word.toList)
    (h : Text.lowerAscii closer = "/" ++ word) : closingWord? closer.toList = some word := by
  have hslash : Text.Trimmed ('/' :: word.toList) :=
    Text.trimmed_of_forall (List.forall_mem_cons.2 ⟨by decide, fun _ => hword.isSpace⟩)
  have hlower : closer.toList.map Char.toLower = '/' :: word.toList := by
    rw [← Text.toList_lowerAscii, h, String.toList_append]
    rfl
  have htrim : (Text.trimChars closer.toList).map Char.toLower = '/' :: word.toList := by
    rw [← Text.trimChars_map_toLower, hlower]
    exact Text.trimChars_eq_self_iff.2 hslash
  obtain ⟨c, rest, hcs, hc, hrest⟩ := List.map_eq_cons_iff.1 htrim
  rw [closingWord?, hcs, eq_slash_of_toLower hc]
  simp only [Option.some_inj]
  rw [← String.toList_inj, Text.toList_lowerAscii, String.toList_ofList,
    ← Text.trimChars_map_toLower, hrest]
  exact Text.trimChars_eq_self_iff.2 hword.trimmed

/-- **A binding is closed by its verb with the name of its kind**, in whatever case they are
written, exactly if nothing stands between the two where it is opened. -/
theorem isClosedBy_register_iff {gap closer : String} {kind : Kind} {o : Opened}
    (ho : o.word = "register" ++ gap ++ kind.name)
    (hcloser : Text.lowerAscii closer = "/register" ++ kind.name) :
    o.isClosedBy closer.toList = true ↔ gap = "" := by
  have hlower : Text.Lower ("register" ++ kind.name).toList := Verb.register.lower_word_name kind
  have hclosing : closingWord? closer.toList = some ("register" ++ kind.name) :=
    closingWord?_of_lowerAscii hlower (by rw [hcloser, ← String.append_assoc]; rfl)
  have hne : "register" ++ kind.name ≠ "" := by simp
  rw [Opened.isClosedBy_iff, hclosing, ho, Option.some_inj, Option.some_inj, or_iff_right hne,
    String.append_assoc, ← String.toList_inj, ← String.toList_inj, String.toList_append,
    String.toList_append, String.toList_append, List.append_cancel_left_eq,
    List.self_eq_append_left]
  rfl

/-- **Which bracket groups are tags for variables.** A group that stands in no content is one if its
word is a verb and the name of a kind, with nothing but white space between the two; with a word
that is none of these, and none of the vocabulary, it is text as it stands. A binding is closed by
its verb with the name of its kind exactly if nothing stands between the two where it is opened. -/
theorem variable_tags (body : List Char) (vars : Variables) :
    let read := readToken ⟨none, vars⟩ (.group body)
    (∀ (verb : Verb) (kind : Kind),
      ReadAs body (verb.keyword kind) ↔
        ∃ gap, Text.IsBlank gap ∧ tagWord body = verb.word ++ gap ++ kind.name) ∧
    (∀ (verb : Verb) (kind : Kind), ReadAs body (verb.keyword kind) →
      read = valued (verb.keyword kind) (tagWord body) (openingParts body).2 vars) ∧
    (closingWord? body = none → tagWord body ∉ Keyword.vocabulary.map Prod.fst →
      (∀ (verb : Verb) (kind : Kind) (gap : String), Text.IsBlank gap →
        tagWord body ≠ verb.word ++ gap ++ kind.name) →
      read = .verbatim body vars) ∧
    ∀ (kind : Kind) (gap : String) (o : Opened),
      tagWord body = "register" ++ gap ++ kind.name → read.standing.opened = some o →
        ∀ closer, Text.lowerAscii closer = "/register" ++ kind.name →
          (o.isClosedBy closer.toList = true ↔ gap = "") := by
  intro read
  refine ⟨fun _ _ => readAs_keyword_iff, ?_, ?_, ?_⟩
  · rintro verb kind ⟨hc, hk⟩
    rw [keyword?_of_opening hc] at hk
    have hread : read = readOpening body vars := by
      simp only [read, readToken, readGroup, hc]
    rw [hread, readOpening_eq, openingParts_fst, hk]
    cases verb <;> rfl
  · exact fun hc hwords hverbs => readGroup_of_unknown (keyword?_eq_none hc hwords hverbs) vars
  · intro kind gap o hword ho closer hcloser
    have hopens : opens? body = some o := (opened_readGroup body vars).symm.trans ho
    exact isClosedBy_register_iff ((of_opens? hopens).2.1.trans hword) hcloser

/-- A tag for a variable in mixed case, with white space around its word. -/
theorem variable_tags_gold :
    ReadAs " RegisterInt = gold".toList (.register .int) ∧
      ∀ o, (readToken ⟨none, .empty⟩
          (.group " RegisterInt = gold".toList)).standing.opened = some o →
        o.isClosedBy "/REGISTERint".toList = true := by
  have hword : tagWord " RegisterInt = gold".toList = "register" ++ "" ++ Kind.int.name := by
    decide +kernel
  have hcloser : Text.lowerAscii "/REGISTERint" = "/register" ++ Kind.int.name := by decide +kernel
  obtain ⟨hread, -, -, hclosed⟩ := variable_tags " RegisterInt = gold".toList .empty
  refine ⟨(hread .register .int).2 ⟨"", Text.isBlank_empty, hword⟩, fun o ho => ?_⟩
  exact (hclosed .int "" o hword ho "/REGISTERint" hcloser).2 rfl

/-- With white space between the verb and the kind, the word is not the verb and the kind, and yet
the tag is one for a variable. The closing tag of that kind leaves it open, and the binding is
lost. -/
theorem spaced_registration_never_closed :
    let r := Reading.ofText .empty "<register int=gold>50</registerint>"
    (∀ kind : Kind, tagWord "register int=gold".toList ≠ "register" ++ kind.name) ∧
      ReadAs "register int=gold".toList (.register .int) ∧
      r.sentence.text = "" ∧ r.sentence.issues = [.unclosed "register int"] ∧
      r.vars.get? "gold" = none := by
  intro r
  refine ⟨fun kind => ?_, ⟨?_, ?_⟩, ?_, ?_, ?_⟩
  · cases kind <;> decide +kernel
  all_goals decide +kernel

end Markup

end Colloquy
