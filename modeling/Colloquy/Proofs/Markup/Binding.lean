import Colloquy.Proofs.Json.ReadBack
import Colloquy.Proofs.Markup.Verbatim

/-!
# Proofs/Markup/Binding — a value that is bound by a tag and shown by another

A tag binds a variable to the value that its content writes, and another shows what the variable
holds. Numbers and truth values come through this unchanged: what writes them is read back as the
same value, up to the ends of each range (`Kind.parse?_toText`), and a kind that takes the values of
another writes them alike (`Variables.toText_retrieveAs`). Any other kind shows its zero, and
showing never changes what is bound (`Reading.ofText_binding`).
-/

namespace Colloquy

/-! ## Whole numbers as they are written -/

theorem splitSign_digits {c : Char} (hc : c.isDigit = true) (cs : List Char) :
    splitSign (c :: cs) = (false, c :: cs) := by
  unfold splitSign
  split
  · rename_i heq
    cases heq
    exact absurd hc (by decide)
  · rename_i heq
    cases heq
    exact absurd hc (by decide)
  · rfl

/-- A whole number is read back from what writes it. -/
theorem wholeOfChars?_toString (n : Int) : wholeOfChars? (toString n).toList = some n := by
  have hdigits (m : Nat) : Nat.toDigits 10 m ≠ [] ∧ (Nat.toDigits 10 m).all Char.isDigit = true :=
    ⟨Nat.toDigits_ne_nil, List.all_eq_true.2 Json.isDigit_of_mem_toDigits⟩
  cases n with
  | ofNat m =>
    obtain ⟨c, cs, hcs, hc⟩ := Json.exists_toDigits_eq_cons m
    have hsplit : splitSign (Nat.toDigits 10 m) = (false, Nat.toDigits 10 m) := by
      rw [hcs, splitSign_digits hc]
    rw [Json.toList_toString_ofNat, wholeOfChars?, hsplit]
    simp only [if_pos (hdigits m), Json.natOfDigits_toDigits]
    rfl
  | negSucc m =>
    rw [Json.toList_toString_negSucc, wholeOfChars?, splitSign]
    simp only [if_pos (hdigits (m + 1)), Json.natOfDigits_toDigits]
    rfl

theorem readWithin?_toString {low high n : Int} (hlow : low ≤ n) (hhigh : n ≤ high) :
    readWithin? low high (toString n).toList = some n := by
  rw [readWithin?, wholeOfChars?_toString]
  exact Option.filter_some_pos (decide_eq_true ⟨hlow, hhigh⟩)

theorem isSpace_of_isDigit {c : Char} (hc : c.isDigit = true) : Text.isSpace c = false := by
  have hrange : 48 ≤ c.toNat ∧ c.toNat ≤ 57 := by simpa using Char.isDigit_iff_toNat.1 hc
  exact Text.isSpace_of_ascii (by omega)

/-- A whole number is written with digits and perhaps a minus sign. -/
theorem eq_minus_or_isDigit_of_mem_toString {n : Int} {c : Char} (h : c ∈ (toString n).toList) :
    c = '-' ∨ c.isDigit = true := by
  cases n with
  | ofNat m =>
    rw [Json.toList_toString_ofNat] at h
    exact .inr (Json.isDigit_of_mem_toDigits c h)
  | negSucc m =>
    rw [Json.toList_toString_negSucc] at h
    exact (List.mem_cons.1 h).imp_right (Json.isDigit_of_mem_toDigits c)

theorem trimChars_toString (n : Int) :
    Text.trimChars (toString n).toList = (toString n).toList := by
  refine Text.trimChars_eq_self_iff.2 (Text.trimmed_of_forall fun c hc => ?_)
  obtain rfl | hdigit := eq_minus_or_isDigit_of_mem_toString hc
  · decide
  · exact isSpace_of_isDigit hdigit

/-! ## Values as they are written -/

/-- **A number or a truth value is read back from its text** as a value of its kind. -/
theorem Kind.parse?_toText {v : Value} (hfloat : v.kind ≠ .float) (hstring : v.kind ≠ .string) :
    v.kind.parse? v.toText = some v := by
  cases v with
  | short n =>
    rw [Value.kind, Value.toText, parse?, trimChars_toString,
      readWithin?_toString n.minValue_le_toInt n.toInt_le, Option.map_some, Int16.ofInt_toInt]
  | int n =>
    rw [Value.kind, Value.toText, parse?, trimChars_toString,
      readWithin?_toString n.minValue_le_toInt n.toInt_le, Option.map_some, Int32.ofInt_toInt]
  | long n =>
    rw [Value.kind, Value.toText, parse?, trimChars_toString,
      readWithin?_toString n.minValue_le_toInt n.toInt_le, Option.map_some, Int64.ofInt_toInt]
  | bool b => cases b <;> decide +kernel
  | float x => exact absurd rfl hfloat
  | string s => exact absurd rfl hstring

theorem Value.unbracketed_toText {v : Value} (hfloat : v.kind ≠ .float)
    (hstring : v.kind ≠ .string) : Markup.Unbracketed v.toText.toList := by
  have hwhole (n : Int) : Markup.Unbracketed (toString n).toList := by
    constructor <;>
    · intro h
      obtain heq | hdigit := eq_minus_or_isDigit_of_mem_toString h
      · exact absurd heq (by decide)
      · exact absurd hdigit (by decide)
  cases v with
  | short n => exact hwhole n.toInt
  | int n => exact hwhole n.toInt
  | long n => exact hwhole n.toInt
  | bool b => cases b <;> decide
  | float x => exact absurd rfl hfloat
  | string s => exact absurd rfl hstring

/-! ## Wider kinds -/

/-- How many bits a whole number of a kind has. -/
def Kind.bits? : Kind → Option Nat
  | short => some 16
  | int => some 32
  | long => some 64
  | _ => none

/-- A kind takes the values of another: it is the same, or both are whole and it is wider. -/
def Kind.Takes (k j : Kind) : Prop := k = j ∨ ∃ a ∈ j.bits?, ∃ b ∈ k.bits?, a < b

instance (k j : Kind) : Decidable (k.Takes j) := inferInstanceAs (Decidable (_ ∨ _))

theorem Value.isSome_widen?_iff (v : Value) (k : Kind) :
    (v.widen? k).isSome = true ↔ k.Takes v.kind := by
  cases v <;> cases k <;> simp [widen?, kind, Kind.Takes, Kind.bits?]

/-- A value reads the same as a wider kind. -/
theorem Value.toText_of_widen? {v w : Value} {k : Kind} (h : v.widen? k = some w) :
    w.toText = v.toText := by
  cases v <;> cases k <;> cases h <;> simp [toText]

/-- What a variable shows as a kind: what it holds, if the kind takes it, or else the zero of the
kind. -/
theorem Variables.toText_retrieveAs {vars : Variables} {name : String} {v : Value}
    (h : vars.get? name = some v) (k : Kind) :
    (vars.retrieveAs name k).value.toText =
      if k.Takes v.kind then v.toText else k.zero.toText := by
  simp only [retrieveAs, h]
  cases hw : v.widen? k with
  | none =>
    rw [if_neg fun htakes => ?_]
    have hsome := (v.isSome_widen?_iff k).2 htakes
    rw [hw] at hsome
    cases hsome
  | some w =>
    rw [if_pos ((v.isSome_widen?_iff k).1 (by rw [hw]; rfl))]
    exact Value.toText_of_widen? hw

/-! ## A variable that is shown -/

namespace Markup

variable {name : String}

theorem retrieval?_tag (k : Kind) (htrim : Text.trim name = name) (hne : name ≠ "") :
    retrieval? (Verb.retrieve.word ++ k.name ++ "=" ++ name).toList = some (name, k) := by
  have hword : Keyword.ofWord? (Verb.retrieve.word ++ k.name) = some (.retrieve k) :=
    Keyword.ofWord?_verb_name .retrieve k
  rw [retrieval?, openingParts_tag (Verb.retrieve.lower_word_name k) htrim, hword]
  exact if_neg hne

namespace Reading

/-- A sentence that is but a tag asking for a variable is what the variable shows. -/
theorem ofText_retrieve (vars : Variables) (k : Kind) (htrim : Text.trim name = name)
    (hne : name ≠ "") (hname : Unbracketed name.toList) :
    let tag := Verb.retrieve.word ++ k.name ++ "=" ++ name
    ∃ trace, ofText vars ("<" ++ tag ++ ">") =
      ⟨[.value (vars.retrieveAs name k).value.toText], vars, trace⟩ := by
  intro tag
  have htokens : tokens ("<" ++ tag ++ ">").toList = [.group tag.toList] := by
    have hchars : ("<" ++ tag ++ ">").toList = [] ++ (Token.group tag.toList).verbatim ++ [] := by
      simp [Token.verbatim, String.toList_append]
    rw [hchars, tokens_append_group (unbracketed_tag (Verb.retrieve.lower_word_name k) hname)]
    rfl
  have hread : readToken ⟨none, vars⟩ (.group tag.toList) = readOpening tag.toList vars := by
    simp only [readToken, readGroup, tag, closingWord?_tag (Verb.retrieve.lower_word_name k)]
  obtain ⟨hpieces, hstanding⟩ := readOpening_of_retrieval (retrieval?_tag k htrim hne) vars
  refine ⟨(readOpening tag.toList vars).trace ++ [], ?_⟩
  rw [ofText, htokens, ofTokens, hread, hpieces, hstanding]
  rfl

/-- A tag that binds a variable to a value, and one that asks for it, are a piece each. -/
theorem ofText_register_retrieve {v : Value} (hfloat : v.kind ≠ .float)
    (hstring : v.kind ≠ .string) (htrim : Text.trim name = name) (hne : name ≠ "")
    (hname : Unbracketed name.toList) (vars : Variables) (k : Kind) :
    let bound := (vars.register name v).vars
    ∃ trace, ofText vars ("" ++ (Closing.register v.kind).element name v.toText ++
        ("<" ++ (Verb.retrieve.word ++ k.name ++ "=" ++ name) ++ ">")) =
      ⟨[.registration name v, .value (bound.retrieveAs name k).value.toText], bound, trace⟩ := by
  intro bound
  have houtcome : Opened.outcome ⟨.register v.kind, (Closing.register v.kind).word, name,
      v.toText.toList⟩ = .registration name v := by
    simp only [Opened.outcome, String.ofList_toList, Kind.parse?_toText hfloat hstring]
  have hempty : ofText vars "" = ⟨[], vars, []⟩ := rfl
  have hbefore : ∀ word, .unclosed word ∉ (ofText vars "").sentence.issues := fun _ => by
    rw [hempty]
    exact List.not_mem_nil
  have hgroups : ∀ body, HasGroup v.toText.toList body →
      closingWord? body ≠ some "" ∧ closingWord? body ≠ some (Closing.register v.kind).word := by
    rintro body ⟨-, before, after, hsplit⟩
    refine absurd ?_ (Value.unbracketed_toText hfloat hstring).1
    simp [hsplit, Token.verbatim]
  obtain ⟨trace, hshown⟩ := ofText_retrieve bound k htrim hne hname
  have hread := ofText_element_eq hbefore htrim hne hname hgroups
    ("<" ++ (Verb.retrieve.word ++ k.name ++ "=" ++ name) ++ ">")
  have hbind : bindAll vars (Piece.registration name v).registration?.toList = bound := rfl
  simp only [houtcome, hempty, hbind, hshown] at hread
  exact ⟨_, hread⟩

/-- **A value that is bound by a tag is shown by another.** Whatever variables there were, its text
is read as the value, and the tag binds the variable to that. A tag asking for the variable as a
kind that takes the value shows its text, and as any other kind the zero of that kind. There are no
tags and no issues, and the variable stays bound. -/
theorem ofText_binding {v : Value} (hfloat : v.kind ≠ .float) (hstring : v.kind ≠ .string)
    (htrim : Text.trim name = name) (hne : name ≠ "") (hname : Unbracketed name.toList)
    (vars : Variables) (k : Kind) :
    let r := ofText vars ("<register" ++ v.kind.name ++ "=" ++ name ++ ">" ++ v.toText ++
      "</register" ++ v.kind.name ++ "><retrieve" ++ k.name ++ "=" ++ name ++ ">")
    v.kind.parse v.toText = .ok v ∧
      r.sentence.text = (if k.Takes v.kind then v.toText else k.zero.toText) ∧
      r.sentence.tags = [] ∧ r.sentence.issues = [] ∧
      r.vars = (vars.register name v).vars ∧ r.vars.get? name = some v := by
  intro r
  have hraw : "<register" ++ v.kind.name ++ "=" ++ name ++ ">" ++ v.toText ++ "</register" ++
      v.kind.name ++ "><retrieve" ++ k.name ++ "=" ++ name ++ ">" =
        "" ++ (Closing.register v.kind).element name v.toText ++
          ("<" ++ (Verb.retrieve.word ++ k.name ++ "=" ++ name) ++ ">") := by
    simp only [← String.toList_inj, String.toList_append, Closing.element, Closing.opener,
      Closing.closer, Closing.word, Verb.word]
    simp
  obtain ⟨trace, hread⟩ := ofText_register_retrieve hfloat hstring htrim hne hname vars k
  rw [← hraw] at hread
  have hbound : (vars.register name v).vars.get? name = some v := by
    rw [Variables.get?_register, if_pos rfl]
  have hbeats : r.sentence.beats =
      (if k.Takes v.kind then v.toText else k.zero.toText).toList.map .character := by
    rw [← Variables.toText_retrieveAs hbound]
    exact (congrArg (Sentence.beats ∘ sentence) hread).trans (List.append_nil _)
  refine ⟨Kind.parse_eq_ok_iff.2 (Kind.parse?_toText hfloat hstring), ?_, ?_, ?_, ?_, ?_⟩
  · rw [Sentence.text, Sentence.visible, hbeats, characters_map_character, String.ofList_toList]
  · rw [Sentence.tags, hbeats, tagsFrom_map_character]
  · exact congrArg (Sentence.issues ∘ sentence) hread
  · exact congrArg Reading.vars hread
  · exact (congrArg (Reading.vars · |>.get? name) hread).trans hbound

/-- The least of the short numbers, shown as a long one. -/
theorem ofText_binding_least :
    let r := ofText .empty ("<registershort=a=/b c>-32768</registershort><retrievelong=a=/b c>")
    Text.trim "a=/b c" = "a=/b c" ∧ Unbracketed "a=/b c".toList ∧
      Kind.short.parse "-32768" = .ok (.short Int16.minValue) ∧ r.sentence.text = "-32768" ∧
      r.sentence.tags = [] ∧ r.sentence.issues = [] ∧
      r.vars.get? "a=/b c" = some (.short Int16.minValue) := by
  intro r
  have htrim : Text.trim "a=/b c" = "a=/b c" := by decide +kernel
  have hname : Unbracketed "a=/b c".toList := by decide
  obtain ⟨hparse, htext, htags, hissues, -, hbound⟩ := @ofText_binding "a=/b c"
    (.short Int16.minValue) (by decide) (by decide) htrim (by decide) hname .empty .long
  exact ⟨htrim, hname, hparse, htext, htags, hissues, hbound⟩

end Reading

end Markup

end Colloquy
