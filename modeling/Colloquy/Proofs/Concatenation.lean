import Colloquy.Markup.Reading

/-!
# Proofs/Concatenation — a sentence may be read in two parts

A raw sentence may be cut wherever no tag is torn apart: where each opening bracket before the cut
has its closing one (`Shut`) and no complex tag is open. The second part, read with the variables
that the first one leaves, then goes on where the first one ends (`ofText_append`): the texts and
the issues follow on each other, and the tags of the second part stand behind the text of the first.
-/

namespace Colloquy.Markup

/-! ## Where no bracket is torn off -/

/-- Behind the last opening bracket there is a closing one. -/
def Shut (cs : List Char) : Prop :=
  ∀ before after, cs = before ++ '<' :: after → '<' ∉ after → '>' ∈ after

theorem shut_nil : Shut [] := fun before after h => by simp at h

theorem shut_cons {c : Char} {cs : List Char} :
    Shut (c :: cs) ↔ (c = '<' → '<' ∉ cs → '>' ∈ cs) ∧ Shut cs := by
  constructor
  · refine fun h => ⟨?_, fun before after hcs => h (c :: before) after (by rw [hcs]; rfl)⟩
    rintro rfl
    exact h [] cs rfl
  · rintro ⟨hc, hcs⟩ before after h
    cases before with
    | nil =>
      obtain ⟨rfl, rfl⟩ := List.cons.inj h
      exact hc rfl
    | cons d before => exact hcs before after (List.cons.inj h).2

instance decidableShut : ∀ cs : List Char, Decidable (Shut cs)
  | [] => isTrue shut_nil
  | _ :: cs =>
    have := decidableShut cs
    decidable_of_iff' _ shut_cons

/-- A bracket stays open until a closing one comes, or another that takes its place. -/
theorem Shut.of_opened {c : Char} {cs : List Char} (h : Shut ('<' :: c :: cs)) (hc : c ≠ '>') :
    Shut ('<' :: cs) := by
  obtain ⟨hopened, hcs⟩ := shut_cons.1 h
  refine shut_cons.2 ⟨fun _ hnone => ?_, (shut_cons.1 hcs).2⟩
  by_cases heq : c = '<'
  · exact (shut_cons.1 hcs).1 heq hnone
  · have hmem : '>' ∈ c :: cs := hopened rfl fun hin =>
      (List.mem_cons.1 hin).elim (Ne.symm heq) hnone
    exact (List.mem_cons.1 hmem).resolve_left (Ne.symm hc)

/-- A text is cut into tokens part by part, if no bracket is torn off. -/
theorem tokensFrom_append (bs : List Char) :
    ∀ (read? : Option (List Char)) (as : List Char),
      Shut ((match read? with | some _ => ['<'] | none => []) ++ as) →
        tokensFrom read? (as ++ bs) = tokensFrom read? as ++ tokens bs
  | none, [], _ => rfl
  -- an opening bracket at the very end is not shut
  | some read, [], h => by
      have hnone : '>' ∈ ([] : List Char) := h [] [] rfl List.not_mem_nil
      cases hnone
  | none, c :: as, h => by
      rw [List.cons_append, tokensFrom, tokensFrom]
      split
      · rename_i hc
        exact tokensFrom_append bs (some []) as (hc ▸ h)
      · exact congrArg _ (tokensFrom_append bs none as (shut_cons.1 h).2)
  | some read, c :: as, h => by
      rw [List.cons_append, tokensFrom, tokensFrom]
      split
      · rename_i hc
        rw [tokensFrom_append bs (some []) as (h.of_opened (by rw [hc]; decide)),
          List.append_assoc]
      · split
        · exact congrArg _ (tokensFrom_append bs none as (shut_cons.1 (shut_cons.1 h).2).2)
        · exact tokensFrom_append bs (some (c :: read)) as (h.of_opened ‹_›)

/-! ## Where no complex tag is open -/

/-- Where reading stands after some tokens. -/
def standingAfter (here : Standing) (ts : List Token) : Standing :=
  ts.foldl (fun here t => (readToken here t).standing) here

/-- A complex tag that is open at the end is an issue. -/
theorem issue_unclosed_mem_ofTokens {o : Opened} (ts : List Token) :
    ∀ {here : Standing}, (standingAfter here ts).opened = some o →
      .issue (.unclosed o.word) ∈ (Reading.ofTokens here ts).pieces := by
  induction ts with
  | nil =>
    intro here h
    rw [Reading.ofTokens, show here.opened = some o from h]
    exact List.mem_singleton_self _
  | cons t ts ih => exact fun h => List.mem_append_right _ (ih h)

/-- Reading goes on where it stands. -/
theorem ofTokens_append (us ts : List Token) :
    ∀ {here : Standing}, (standingAfter here ts).opened = none →
      let r := Reading.ofTokens here ts
      let r' := Reading.ofTokens ⟨none, r.vars⟩ us
      Reading.ofTokens here (ts ++ us) = ⟨r.pieces ++ r'.pieces, r'.vars, r.trace ++ r'.trace⟩ := by
  induction ts with
  | nil =>
    rintro ⟨opened, vars⟩ rfl
    rfl
  | cons t ts ih =>
    intro here h
    rw [List.cons_append, Reading.ofTokens, Reading.ofTokens, ih h]
    simp only [List.append_assoc]

/-! ## Reading in two parts -/

/-- The tag behind so many further characters. -/
def Tag.shift (n : Nat) (t : Tag) : Tag := { t with index := t.index + n }

theorem tagsFrom_add (k : Nat) (bs : List Beat) :
    ∀ n : Nat, tagsFrom (n + k) bs = (tagsFrom n bs).map (Tag.shift k) := by
  induction bs with
  | nil => exact fun _ => rfl
  | cons b bs ih =>
    intro n
    cases b with
    | character c => rw [tagsFrom_character, tagsFrom_character, Nat.add_right_comm, ih]
    | tag c =>
      rw [tagsFrom_tag, tagsFrom_tag, List.map_cons, ih]
      rfl

namespace Reading

/-- **A sentence may be read in two parts**: what comes of both is what comes of the parts, the
second of them read with the variables that the first one leaves. -/
theorem ofText_append {vars : Variables} {a b : String}
    (hclosed : ∀ word, .unclosed word ∉ (ofText vars a).sentence.issues)
    (hshut : Shut a.toList) :
    let r := ofText vars a
    let r' := ofText r.vars b
    let whole := ofText vars (a ++ b)
    whole.sentence.text = r.sentence.text ++ r'.sentence.text ∧
      whole.sentence.tags = r.sentence.tags ++ r'.sentence.tags.map (.shift r.sentence.size) ∧
      whole.sentence.issues = r.sentence.issues ++ r'.sentence.issues ∧
      whole.vars = r'.vars ∧ whole.trace = r.trace ++ r'.trace := by
  intro r r' whole
  have hopened : (standingAfter ⟨none, vars⟩ (tokens a.toList)).opened = none := by
    cases ho : (standingAfter ⟨none, vars⟩ (tokens a.toList)).opened with
    | none => rfl
    | some o =>
      have hmem := issue_unclosed_mem_ofTokens _ ho
      have hissue : .unclosed o.word ∈ r.sentence.issues := List.mem_filterMap.2 ⟨_, hmem, rfl⟩
      exact absurd hissue (hclosed o.word)
  have hwhole : whole = ⟨r.pieces ++ r'.pieces, r'.vars, r.trace ++ r'.trace⟩ := by
    have htokens : tokens (a ++ b).toList = tokens a.toList ++ tokens b.toList := by
      rw [String.toList_append]
      exact tokensFrom_append b.toList none a.toList hshut
    simp only [whole, ofText, htokens]
    exact ofTokens_append (tokens b.toList) (tokens a.toList) hopened
  have hbeats : whole.sentence.beats = r.sentence.beats ++ r'.sentence.beats := by
    rw [hwhole]
    exact List.flatMap_append
  refine ⟨?_, ?_, ?_, ?_, ?_⟩
  · rw [Sentence.text, Sentence.visible, hbeats, characters_append, String.ofList_append]
    rfl
  · rw [Sentence.tags, hbeats, tagsFrom_append, tagsFrom_add]
    rfl
  · rw [hwhole]
    exact List.filterMap_append
  · rw [hwhole]
  · rw [hwhole]

/-- A cut between a binding and the tag that asks for it, among brackets that are no tags. -/
theorem ofText_append_binding :
    let a := "Él <3 <registerint=gold>5<b>0</registerint><registerint=gold>50</><wait=1>¡"
    let b := "<retrieveint=gold> < <hidesprite>é<log=x"
    let r := ofText .empty a
    let r' := ofText r.vars b
    let whole := ofText .empty (a ++ b)
    (∀ word, .unclosed word ∉ r.sentence.issues) ∧ Shut a.toList ∧
      whole.sentence.text = r.sentence.text ++ r'.sentence.text ∧
      whole.sentence.tags = r.sentence.tags ++ r'.sentence.tags.map (.shift r.sentence.size) ∧
      whole.sentence.text = "Él <3 ¡50 < é<log=x" ∧
      whole.sentence.tags.map (·.index) = [6, 12] := by
  intro a b r r' whole
  have hissues : r.sentence.issues = [.badLiteral "registerint" "5<b>0"] := by decide +kernel
  have hclosed : ∀ word, .unclosed word ∉ r.sentence.issues := by simp [hissues]
  have hshut : Shut a.toList := by decide +kernel
  have hread : whole.sentence.text = "Él <3 ¡50 < é<log=x" ∧
      whole.sentence.tags.map (·.index) = [6, 12] := by decide +kernel
  obtain ⟨htext, htags, -⟩ := ofText_append hclosed hshut (b := b)
  exact ⟨hclosed, hshut, htext, htags, hread⟩

end Reading

end Colloquy.Markup
