import Colloquy.Json.Reader
import Mathlib.Data.List.TakeWhile

/-!
# Proofs/Json/ReadBack — what is written is read back

The text of a JSON value is read as that value (`Json.parse_toText`), as long as its texts are texts
(`Json.Textual`). A value is read up to where its text ends, if something follows that a number
cannot go on with (`Json.Ends`), and reading takes no more steps than the text has characters. So
the induction is on the value, with any such remainder and any larger bound.
-/

namespace Colloquy.Json

/-! ## Texts -/

/-- A character that stands for itself. -/
theorem readUnits_cons {c : Char} (hquote : c ≠ '"') (hslash : c ≠ '\\') (hcontrol : 0x20 ≤ c.toNat)
    (cs : List Char) :
    readUnits (c :: cs) = (readUnits cs).map fun (us, rest) => (.char c :: us, rest) := by
  rw [readUnits.eq_def]
  split
  case h_6 c cs heq =>
    cases heq
    exact if_neg (Nat.not_lt.2 hcontrol)
  all_goals simp_all

theorem readUnits_escape {c e : Char} (hu : c ≠ 'u') (h : escape? c = some e) (cs : List Char) :
    readUnits ('\\' :: c :: cs) = (readUnits cs).map fun (us, rest) => (.char e :: us, rest) := by
  rw [readUnits.eq_def]
  split
  case h_4 heq =>
    cases heq
    rw [h]
  case h_6 hescape _ heq =>
    cases heq
    exact absurd rfl (hescape _ _ rfl)
  all_goals simp_all

theorem digits?_hexDigit : ∀ n < 32,
    digits? 16 ['0', '0', hexDigit (n / 16), hexDigit (n % 16)] = some n := by
  decide

theorem readUnits_control {c : Char} (h : c.toNat < 0x20) (cs : List Char) :
    readUnits ('\\' :: 'u' :: '0' :: '0' :: hexDigit (c.toNat / 16) :: hexDigit (c.toNat % 16) ::
      cs) = (readUnits cs).map fun (us, rest) => (.char c :: us, rest) := by
  have hchar : Unit16.ofNat c.toNat = .char c := by
    rw [Unit16.ofNat, if_neg (by omega), Char.ofNat_toNat]
  rw [readUnits, digits?_hexDigit c.toNat h]
  simp only [hchar]

/-- Reading the written form of a character gives the character. -/
theorem readUnits_quoteChar (c : Char) (cs : List Char) : readUnits (quoteChar c ++ cs) =
    (readUnits cs).map fun (us, rest) => (.char c :: us, rest) := by
  unfold quoteChar
  split_ifs with hquote hslash hn hr ht hb hf hcontrol
  · exact readUnits_escape (by decide) (by rw [hquote]; rfl) cs
  · exact readUnits_escape (by decide) (by rw [hslash]; rfl) cs
  · exact readUnits_escape (by decide) (by rw [hn]; rfl) cs
  · exact readUnits_escape (by decide) (by rw [hr]; rfl) cs
  · exact readUnits_escape (by decide) (by rw [ht]; rfl) cs
  · exact readUnits_escape (by decide) (by rw [hb]; rfl) cs
  · exact readUnits_escape (by decide) (by rw [hf]; rfl) cs
  · exact readUnits_control hcontrol cs
  · exact readUnits_cons hquote hslash (Nat.le_of_not_lt hcontrol) cs

theorem readUnits_flatMap_quoteChar (rest : List Char) : ∀ cs : List Char,
    readUnits (cs.flatMap quoteChar ++ '"' :: rest) = .ok (cs.map .char, rest)
  | [] => by simp [readUnits]
  | c :: cs => by
      rw [List.flatMap_cons, List.append_assoc, readUnits_quoteChar,
        readUnits_flatMap_quoteChar rest cs]
      rfl

theorem joinUnits_map_char : ∀ cs : List Char, joinUnits (cs.map .char) = some cs
  | [] => rfl
  | c :: cs => by rw [List.map_cons, joinUnits, joinUnits_map_char cs, Option.map_some]

/-- A quoted text is read as the text. -/
theorem readText_quote (s : String) (rest : List Char) :
    readText (s.toList.flatMap quoteChar ++ '"' :: rest) = .ok (some s, rest) := by
  rw [readText, readUnits_flatMap_quoteChar]
  simp only [Except.map, joinUnits_map_char, Option.map_some, String.ofList_toList]

/-! ## Numbers -/

/-- What may follow a value: nothing, or what separates or ends the parts of a larger one. -/
def Ends (rest : List Char) : Prop :=
  ∀ c, rest.head? = some c → c = ',' ∨ c = ']' ∨ c = '}'

theorem ends_nil : Ends [] := nofun

theorem ends_comma (rest : List Char) : Ends (',' :: rest) := by simp [Ends]

theorem ends_bracket (rest : List Char) : Ends (']' :: rest) := by simp [Ends]

theorem ends_brace (rest : List Char) : Ends ('}' :: rest) := by simp [Ends]

theorem natOfDigits_toDigits (n : Nat) : natOfDigits (Nat.toDigits 10 n) = n := by
  rw [natOfDigits]
  simp only [Nat.mul_comm _ 10]
  rw [← Nat.ofDigitChars_eq_foldl, Nat.ofDigitChars_ten_toDigits]

/-- A number above zero does not start with a zero. -/
theorem head?_toDigits {n : Nat} (hn : 0 < n) : (Nat.toDigits 10 n).head? ≠ some '0' := by
  induction n using Nat.strongRecOn with
  | ind n ih =>
    rw [Nat.toDigits_eq_if (by decide)]
    split
    case isTrue hlt =>
      have : ∀ d < 10, 0 < d → [Nat.digitChar d].head? ≠ some '0' := by decide
      exact this n hlt hn
    case isFalse hge =>
      obtain ⟨c, cs, hcs⟩ := List.exists_cons_of_ne_nil (Nat.toDigits_ne_nil (n := n / 10))
      have := ih (n / 10) (by omega) (by omega)
      rwa [hcs] at this ⊢

theorem readExponent_of_ends {rest : List Char} (h : Ends rest) :
    readExponent rest = .ok (false, rest) := by
  cases rest with
  | nil => rfl
  | cons c cs => rcases h c rfl with rfl | rfl | rfl <;> rfl

theorem readFraction_of_ends {rest : List Char} (h : Ends rest) :
    readFraction rest = .ok (false, rest) := by
  cases rest with
  | nil => rfl
  | cons c cs => rcases h c rfl with rfl | rfl | rfl <;> rfl

theorem Ends.not_isDigit {rest : List Char} (h : Ends rest) :
    ∀ c, rest.head? = some c → c.isDigit = false := by
  intro c hc
  rcases h c hc with rfl | rfl | rfl <;> rfl

theorem takeWhile_dropWhile_digits {ds rest : List Char} (hds : ∀ c ∈ ds, c.isDigit = true)
    (h : Ends rest) : (ds ++ rest).takeWhile Char.isDigit = ds ∧
      (ds ++ rest).dropWhile Char.isDigit = rest := by
  rw [List.takeWhile_append_of_pos hds, List.dropWhile_append_of_pos hds]
  cases rest with
  | nil => simp
  | cons c cs => simp [h.not_isDigit c rfl]

theorem isDigit_of_mem_toDigits {n : Nat} : ∀ c ∈ Nat.toDigits 10 n, c.isDigit = true :=
  fun _ hc => Nat.isDigit_of_mem_toDigits (by decide) (by decide) hc

theorem exists_toDigits_eq_cons (n : Nat) : ∃ c cs, Nat.toDigits 10 n = c :: cs ∧ c.isDigit := by
  obtain ⟨c, cs, h⟩ := List.exists_cons_of_ne_nil (Nat.toDigits_ne_nil (n := n) (b := 10))
  exact ⟨c, cs, h, isDigit_of_mem_toDigits c (h ▸ List.mem_cons_self ..)⟩

theorem readDigits_cons {c : Char} (hc : c.isDigit = true) (hzero : c ≠ '0') (cs : List Char) :
    readDigits (c :: cs) =
      .ok ((c :: cs).takeWhile Char.isDigit, (c :: cs).dropWhile Char.isDigit) := by
  rw [readDigits.eq_def]
  split
  case h_3 heq =>
    cases heq
    exact if_pos hc
  all_goals simp_all

theorem readDigits_toDigits (n : Nat) {rest : List Char} (h : Ends rest) :
    readDigits (Nat.toDigits 10 n ++ rest) = .ok (Nat.toDigits 10 n, rest) := by
  rcases n.eq_zero_or_pos with rfl | hn
  · rw [Nat.toDigits_zero]
    cases rest with
    | nil => rfl
    | cons c cs => simp [readDigits, h.not_isDigit c rfl]
  · obtain ⟨htake, hdrop⟩ := takeWhile_dropWhile_digits (@isDigit_of_mem_toDigits n) h
    have hhead := head?_toDigits hn
    obtain ⟨c, cs, hcs, hc⟩ := exists_toDigits_eq_cons n
    rw [hcs] at htake hdrop hhead ⊢
    rw [List.cons_append] at htake hdrop ⊢
    rw [readDigits_cons hc (fun h => hhead (by rw [h]; rfl)), htake, hdrop]

theorem toList_toString_ofNat (n : Nat) : (toString (Int.ofNat n)).toList = Nat.toDigits 10 n :=
  Nat.toList_repr

theorem toList_toString_negSucc (n : Nat) :
    (toString (Int.negSucc n)).toList = '-' :: Nat.toDigits 10 (n + 1) := by
  simp [Int.repr]

/-- A whole number starts with its sign or a digit. -/
theorem exists_toString_eq_cons (n : Int) :
    ∃ c cs, (toString n).toList = c :: cs ∧ (c = '-' ∨ c.isDigit = true) := by
  cases n with
  | ofNat n =>
    obtain ⟨c, cs, hcs, hc⟩ := exists_toDigits_eq_cons n
    exact ⟨c, cs, (toList_toString_ofNat n).trans hcs, .inr hc⟩
  | negSucc n => exact ⟨_, _, toList_toString_negSucc n, .inl rfl⟩

/-- A whole number is read up to where it ends. -/
theorem readNumber_integer (n : Int) {rest : List Char} (h : Ends rest) :
    readNumber ((toString n).toList ++ rest) = .ok (integer n, rest) := by
  cases n with
  | ofNat n =>
    have hnumber := natOfDigits_toDigits n
    have hdigits := readDigits_toDigits n h
    obtain ⟨c, cs, hcs, hc⟩ := exists_toDigits_eq_cons n
    have hsign : c ≠ '-' := fun h => by
      rw [h] at hc
      cases hc
    rw [hcs, List.cons_append] at hdigits
    rw [hcs] at hnumber
    rw [toList_toString_ofNat, hcs, List.cons_append]
    simp [readNumber, hsign, hdigits, readFraction_of_ends h, hnumber, Except.map]
  | negSucc n =>
    rw [toList_toString_negSucc]
    simp [readNumber, readDigits_toDigits (n + 1) h, readFraction_of_ends h,
      natOfDigits_toDigits, Except.map, Int.negSucc_eq]

/-! ## Values -/

/-- The texts in a value are texts, the names of members among them. -/
inductive Textual : Json → Prop
  | null : Textual null
  | bool (b : Bool) : Textual (bool b)
  | integer (n : Int) : Textual (integer n)
  | fraction : Textual fraction
  | string (s : String) : Textual (string (some s))
  | array {items : List Json} (h : ∀ j ∈ items, Textual j) : Textual (array items)
  | object {members : List (Option String × Json)}
    (hnames : ∀ m ∈ members, m.1.isSome = true) (h : ∀ m ∈ members, Textual m.2) :
    Textual (object members)

/-- A value is read back from its text, whatever may follow. -/
def Reads (j : Json) : Prop :=
  ∀ fuel rest, j.write.length ≤ fuel → Ends rest → readValue fuel (j.write ++ rest) = .ok (j, rest)

theorem skipGap_cons {c : Char} (h : isGap c = false) (cs : List Char) :
    skipGap (c :: cs) = c :: cs := by
  rw [skipGap, List.dropWhile_cons_of_neg (by simp [h])]

theorem not_isGap_of_isDigit {c : Char} (hc : c.isDigit = true) : isGap c = false := by
  simp only [isGap, Bool.or_eq_false_iff, decide_eq_false_iff_not]
  refine ⟨⟨⟨?_, ?_⟩, ?_⟩, ?_⟩
  all_goals
    rintro rfl
    cases hc

/-- No value starts with white space or with what ends an array. -/
theorem exists_write_eq_cons (j : Json) :
    ∃ c cs, j.write = c :: cs ∧ isGap c = false ∧ c ≠ ']' := by
  cases j with
  | null => exact ⟨_, _, rfl, rfl, by decide⟩
  | bool b => cases b <;> exact ⟨_, _, rfl, rfl, by decide⟩
  | integer n =>
    obtain ⟨c, cs, hcs, rfl | hc⟩ := exists_toString_eq_cons n
    · exact ⟨_, _, hcs, rfl, by decide⟩
    · exact ⟨c, cs, hcs, not_isGap_of_isDigit hc, fun h => by rw [h] at hc; cases hc⟩
  | fraction => exact ⟨_, _, rfl, rfl, by decide⟩
  | string s => exact ⟨_, _, rfl, rfl, by decide⟩
  | array items => exact ⟨_, _, by rw [write], rfl, by decide⟩
  | object members => exact ⟨_, _, by rw [write], rfl, by decide⟩

theorem reads_null : Reads null := by
  rintro (_ | fuel) rest hfuel -
  · cases hfuel
  · rfl

theorem reads_bool (b : Bool) : Reads (bool b) := by
  rintro (_ | fuel) rest hfuel -
  · cases b <;> cases hfuel
  · cases b <;> rfl

/-- A value that starts as a number does is read as one. -/
theorem readValue_number {c : Char} (hc : c = '-' ∨ c.isDigit = true) (fuel : Nat)
    (cs : List Char) : readValue (fuel + 1) (c :: cs) = readNumber (c :: cs) := by
  have hgap : isGap c = false := by
    rcases hc with rfl | hc
    · rfl
    · exact not_isGap_of_isDigit hc
  have hstart : (c = '-' || c.isDigit) = true := by simpa using hc
  rw [readValue, skipGap_cons hgap]
  split
  case h_8 heq =>
    cases heq
    exact if_pos hstart
  all_goals simp_all

theorem reads_fraction : Reads fraction := by
  rintro (_ | fuel) rest hfuel hrest
  · cases hfuel
  · have htext : fraction.write = ['0', '.', '0'] := rfl
    have hplaces : readPlaces ('0' :: rest) = .ok ((), rest) := by
      have hzero : ∀ c ∈ ['0'], c.isDigit = true := List.forall_mem_singleton.2 rfl
      have hdrop := (takeWhile_dropWhile_digits hzero hrest).2
      exact congrArg (fun cs => Except.ok ((), cs)) hdrop
    have hfraction : readFraction ('.' :: '0' :: rest) = .ok (true, rest) := by
      simp only [readFraction, hplaces, readExponent_of_ends hrest, Except.map]
    have hdigits : readDigits ('0' :: '.' :: '0' :: rest) = .ok (['0'], '.' :: '0' :: rest) := rfl
    rw [htext, List.cons_append, readValue_number (.inr rfl)]
    simp [readNumber, hdigits, hfraction, Except.map]

theorem reads_integer (n : Int) : Reads (integer n) := by
  obtain ⟨c, cs, hcs, hc⟩ := exists_toString_eq_cons n
  rintro (_ | fuel) rest hfuel hrest
  · rw [write, hcs] at hfuel
    cases hfuel
  · have hread := readNumber_integer n hrest
    rw [write]
    rw [hcs, List.cons_append] at hread ⊢
    rw [readValue_number hc, hread]

theorem quote_append (s : String) (rest : List Char) :
    quote s ++ rest = '"' :: (s.toList.flatMap quoteChar ++ '"' :: rest) := by
  simp [quote]

theorem reads_string (s : String) : Reads (string (some s)) := by
  rintro (_ | fuel) rest hfuel -
  · cases hfuel
  · have hskip := skipGap_cons (c := '"') rfl (s.toList.flatMap quoteChar ++ '"' :: rest)
    rw [write, Option.getD_some, quote_append, readValue, hskip]
    simp only [readText_quote, Except.map]

/-! ### Arrays -/

theorem readItems_last {fuel : Nat} {cs rest : List Char} {j : Json}
    (h : readValue fuel cs = .ok (j, ']' :: rest)) : readItems (fuel + 1) cs = .ok ([j], rest) := by
  rw [readItems, h]
  rfl

theorem readItems_more {fuel : Nat} {c : Char} {cs cs' rest : List Char} {j : Json}
    {js : List Json} (h : readValue fuel cs = .ok (j, ',' :: c :: cs')) (hgap : isGap c = false)
    (hend : c ≠ ']') (hmore : readItems fuel (c :: cs') = .ok (js, rest)) :
    readItems (fuel + 1) cs = .ok (j :: js, rest) := by
  rw [readItems, h]
  have hcomma := skipGap_cons (c := ',') rfl (c :: cs')
  simp only [hcomma, skipGap_cons hgap]
  split
  case h_2 heq => exact absurd (List.cons.inj heq).1 hend
  case h_1 heq => cases heq
  case h_3 => rw [hmore]; rfl

theorem writeItems_singleton (j : Json) : writeItems [j] = j.write ++ [']'] := by rw [writeItems]

theorem writeItems_cons_cons (j k : Json) (js : List Json) :
    writeItems (j :: k :: js) = j.write ++ ',' :: writeItems (k :: js) := by
  rw [writeItems]
  exact nofun

theorem exists_writeItems_eq_cons (j : Json) (js : List Json) :
    ∃ c cs, writeItems (j :: js) = c :: cs ∧ isGap c = false ∧ c ≠ ']' := by
  obtain ⟨c, cs, hcs, hc⟩ := exists_write_eq_cons j
  cases js with
  | nil => exact ⟨c, cs ++ [']'], by rw [writeItems_singleton, hcs]; rfl, hc⟩
  | cons k js =>
    exact ⟨c, cs ++ ',' :: writeItems (k :: js), by rw [writeItems_cons_cons, hcs]; rfl, hc⟩

theorem readItems_writeItems : ∀ {j : Json} {js : List Json}, (∀ k ∈ j :: js, Reads k) →
    ∀ fuel rest, (writeItems (j :: js)).length ≤ fuel →
      readItems fuel (writeItems (j :: js) ++ rest) = .ok (j :: js, rest)
  | j, js, _, 0, rest, hfuel => by
      obtain ⟨c, cs, hcs, -⟩ := exists_writeItems_eq_cons j js
      rw [hcs] at hfuel
      cases hfuel
  | j, [], h, fuel + 1, rest, hfuel => by
      have hj := h j (List.mem_singleton_self j)
      rw [writeItems_singleton] at hfuel ⊢
      simp only [List.length_append, List.length_singleton] at hfuel
      rw [List.append_assoc]
      exact readItems_last (hj fuel _ (by omega) (ends_bracket rest))
  | j, k :: js, h, fuel + 1, rest, hfuel => by
      obtain ⟨hj, hjs⟩ := List.forall_mem_cons.1 h
      obtain ⟨c, cs, hcs, hgap, hend⟩ := exists_writeItems_eq_cons k js
      rw [writeItems_cons_cons] at hfuel ⊢
      simp only [List.length_append, List.length_cons] at hfuel
      have hmore := readItems_writeItems hjs fuel rest (by omega)
      have hread := hj fuel (',' :: (writeItems (k :: js) ++ rest)) (by omega) (ends_comma _)
      rw [List.append_assoc, List.cons_append]
      rw [hcs, List.cons_append] at hmore hread ⊢
      exact readItems_more hread hgap hend hmore

theorem reads_array {items : List Json} (h : ∀ j ∈ items, Reads j) : Reads (array items) := by
  rintro (_ | fuel) rest hfuel -
  · cases hfuel
  · have hopen := fun cs => skipGap_cons (c := '[') rfl cs
    rw [write, List.cons_append, readValue, hopen]
    cases items with
    | nil => rfl
    | cons j js =>
      rw [write, List.length_cons] at hfuel
      have hread := readItems_writeItems h fuel rest (by omega)
      obtain ⟨c, cs, hcs, hgap, hend⟩ := exists_writeItems_eq_cons j js
      rw [hcs, List.cons_append] at hread ⊢
      simp only [skipGap_cons hgap]
      split
      case h_1 heq => exact absurd (List.cons.inj heq).1 hend
      case h_2 heq => cases heq
      case h_3 =>
        rw [hread]
        rfl

/-! ### Objects -/

theorem writeMembers_singleton (k : Option String) (j : Json) :
    writeMembers [(k, j)] = quote (k.getD "") ++ ':' :: (j.write ++ ['}']) := by
  rw [writeMembers, List.append_assoc, List.cons_append]

theorem writeMembers_cons_cons (k : Option String) (j : Json) (m : Option String × Json)
    (ms : List (Option String × Json)) : writeMembers ((k, j) :: m :: ms) =
      quote (k.getD "") ++ ':' :: (j.write ++ ',' :: writeMembers (m :: ms)) := by
  rw [writeMembers, List.append_assoc, List.cons_append]
  exact nofun

/-- The members of an object start with the quote of a name. -/
theorem exists_writeMembers_eq_cons (m : Option String × Json)
    (ms : List (Option String × Json)) : ∃ cs, writeMembers (m :: ms) = '"' :: cs := by
  obtain ⟨k, j⟩ := m
  cases ms with
  | nil => exact ⟨_, by rw [writeMembers_singleton, quote_append]⟩
  | cons m ms => exact ⟨_, by rw [writeMembers_cons_cons, quote_append]⟩

theorem readMembers_last {fuel : Nat} {k : String} {cs rest : List Char} {j : Json}
    (h : readValue fuel cs = .ok (j, '}' :: rest)) :
    readMembers (fuel + 1) (quote k ++ ':' :: cs) = .ok ([(some k, j)], rest) := by
  rw [quote_append, readMembers, skipGap_cons rfl]
  simp only [readText_quote, skipGap_cons (c := ':') rfl, h]
  rfl

theorem readMembers_more {fuel : Nat} {k : String} {cs cs' rest : List Char} {j : Json}
    {ms : List (Option String × Json)} (h : readValue fuel cs = .ok (j, ',' :: '"' :: cs'))
    (hmore : readMembers fuel ('"' :: cs') = .ok (ms, rest)) :
    readMembers (fuel + 1) (quote k ++ ':' :: cs) = .ok ((some k, j) :: ms, rest) := by
  rw [quote_append, readMembers, skipGap_cons rfl]
  simp only [readText_quote, skipGap_cons (c := ':') rfl, h, skipGap_cons (c := ',') rfl,
    skipGap_cons (c := '"') rfl, hmore]
  rfl

theorem readMembers_writeMembers : ∀ {m : Option String × Json} {ms : List (Option String × Json)},
    (∀ n ∈ m :: ms, n.1.isSome = true ∧ Reads n.2) →
      ∀ fuel rest, (writeMembers (m :: ms)).length ≤ fuel →
        readMembers fuel (writeMembers (m :: ms) ++ rest) = .ok (m :: ms, rest)
  | m, ms, _, 0, rest, hfuel => by
      obtain ⟨cs, hcs⟩ := exists_writeMembers_eq_cons m ms
      rw [hcs] at hfuel
      cases hfuel
  | (k, j), [], h, fuel + 1, rest, hfuel => by
      obtain ⟨hk, hj : Reads j⟩ := h (k, j) (List.mem_singleton_self _)
      obtain ⟨k, rfl⟩ := Option.isSome_iff_exists.1 hk
      rw [writeMembers_singleton] at hfuel ⊢
      simp only [List.length_append, List.length_cons, List.length_nil] at hfuel
      rw [List.append_assoc, List.cons_append, List.append_assoc]
      exact readMembers_last (hj fuel _ (by omega) (ends_brace rest))
  | (k, j), m :: ms, h, fuel + 1, rest, hfuel => by
      obtain ⟨⟨hk, hj : Reads j⟩, hms⟩ := List.forall_mem_cons.1 h
      obtain ⟨k, rfl⟩ := Option.isSome_iff_exists.1 hk
      obtain ⟨cs, hcs⟩ := exists_writeMembers_eq_cons m ms
      rw [writeMembers_cons_cons] at hfuel ⊢
      simp only [List.length_append, List.length_cons] at hfuel
      have hmore := readMembers_writeMembers hms fuel rest (by omega)
      have hread := hj fuel (',' :: (writeMembers (m :: ms) ++ rest)) (by omega) (ends_comma _)
      rw [List.append_assoc, List.cons_append, List.append_assoc, List.cons_append]
      rw [hcs, List.cons_append] at hmore hread ⊢
      exact readMembers_more hread hmore

theorem reads_object {members : List (Option String × Json)}
    (h : ∀ m ∈ members, m.1.isSome = true ∧ Reads m.2) : Reads (object members) := by
  rintro (_ | fuel) rest hfuel -
  · cases hfuel
  · have hopen := fun cs => skipGap_cons (c := '{') rfl cs
    rw [write, List.cons_append, readValue, hopen]
    cases members with
    | nil => rfl
    | cons m ms =>
      rw [write, List.length_cons] at hfuel
      have hread := readMembers_writeMembers h fuel rest (by omega)
      obtain ⟨cs, hcs⟩ := exists_writeMembers_eq_cons m ms
      rw [hcs, List.cons_append] at hread ⊢
      simp only [skipGap_cons (c := '"') rfl, hread]
      rfl

theorem Textual.reads {j : Json} (h : j.Textual) : Reads j := by
  induction h with
  | null => exact reads_null
  | bool b => exact reads_bool b
  | integer n => exact reads_integer n
  | fraction => exact reads_fraction
  | string s => exact reads_string s
  | array _ ih => exact reads_array ih
  | object hnames _ ih => exact reads_object fun m hm => ⟨hnames m hm, ih m hm⟩

/-- **The text of a value is read as the value.** -/
theorem parse_toText {j : Json} (h : j.Textual) : parse j.toText = .ok j := by
  have hread := h.reads (2 * j.write.length + 2) [] (by omega) ends_nil
  rw [List.append_nil] at hread
  simp only [parse, toText, String.toList_ofList, hread]
  rfl

end Colloquy.Json
