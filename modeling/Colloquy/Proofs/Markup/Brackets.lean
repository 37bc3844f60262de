import Colloquy.Markup.Token

/-!
# Proofs/Markup/Brackets — the bracket groups of a text

The groups among the tokens of a text are the pieces `<body>` of it whose body has no angle bracket
(`mem_tokens_iff`): whatever stands around such a piece, it is cut out as one token, and the text
before it and the text behind it are cut as if they stood alone (`tokens_append_group`).
-/

namespace Colloquy.Markup

/-- Characters without an angle bracket. -/
def Unbracketed (cs : List Char) : Prop := '<' ∉ cs ∧ '>' ∉ cs

instance (cs : List Char) : Decidable (Unbracketed cs) :=
  inferInstanceAs (Decidable (_ ∧ _))

/-- A bracket group stands in a text. -/
def HasGroup (cs body : List Char) : Prop :=
  Unbracketed body ∧ ∃ before after, cs = before ++ (Token.group body).verbatim ++ after

theorem unbracketed_nil : Unbracketed [] := ⟨List.not_mem_nil, List.not_mem_nil⟩

theorem unbracketed_cons {c : Char} {cs : List Char} :
    Unbracketed (c :: cs) ↔ (c ≠ '<' ∧ c ≠ '>') ∧ Unbracketed cs := by
  simp only [Unbracketed, List.mem_cons, not_or, ne_comm (a := c)]
  exact and_and_and_comm

theorem unbracketed_append {as bs : List Char} (ha : Unbracketed as) (hb : Unbracketed bs) :
    Unbracketed (as ++ bs) :=
  ⟨fun h => (List.mem_append.1 h).elim ha.1 hb.1, fun h => (List.mem_append.1 h).elim ha.2 hb.2⟩

theorem unbracketed_reverse {cs : List Char} : Unbracketed cs.reverse ↔ Unbracketed cs := by
  rw [Unbracketed, List.mem_reverse, List.mem_reverse, Unbracketed]

/-! ## Cutting at a bracket -/

/-- An opening bracket begins a new token, whatever was open before. -/
theorem tokensFrom_append_opening (bs : List Char) :
    ∀ (read? : Option (List Char)) (as : List Char),
      tokensFrom read? (as ++ '<' :: bs) = tokensFrom read? as ++ tokens ('<' :: bs)
  | none, [] => rfl
  | some read, [] => by
      rw [List.nil_append, tokensFrom, tokensFrom, if_pos rfl]
      rfl
  | none, c :: as => by
      rw [List.cons_append, tokensFrom, tokensFrom]
      split
      · exact tokensFrom_append_opening bs (some []) as
      · exact congrArg _ (tokensFrom_append_opening bs none as)
  | some read, c :: as => by
      rw [List.cons_append, tokensFrom, tokensFrom]
      split
      · rw [tokensFrom_append_opening bs (some []) as, List.append_assoc]
      · split
        · exact congrArg _ (tokensFrom_append_opening bs none as)
        · exact tokensFrom_append_opening bs (some (c :: read)) as

/-- What stands between the brackets becomes the body of a group. -/
theorem tokensFrom_group {body : List Char} (hbody : Unbracketed body) (after : List Char) :
    ∀ read : List Char,
      tokensFrom (some read) (body ++ '>' :: after) =
        .group (read.reverse ++ body) :: tokens after := by
  induction body with
  | nil =>
    intro read
    rw [List.nil_append, tokensFrom, if_neg (by decide), if_pos rfl, List.append_nil]
    rfl
  | cons c body ih =>
    intro read
    obtain ⟨⟨hopen, hclose⟩, hbody⟩ := unbracketed_cons.1 hbody
    rw [List.cons_append, tokensFrom, if_neg hopen, if_neg hclose, ih hbody, List.reverse_cons,
      List.append_assoc]
    rfl

/-- **A bracket group is one token**, and the text is cut before it and behind it as if each part
stood alone. -/
theorem tokens_append_group {body : List Char} (hbody : Unbracketed body)
    (before after : List Char) :
    tokens (before ++ (Token.group body).verbatim ++ after) =
      tokens before ++ .group body :: tokens after := by
  rw [Token.verbatim, List.append_assoc, List.cons_append, List.cons_append, List.append_assoc,
    List.singleton_append]
  refine (tokensFrom_append_opening _ none before).trans (congrArg (tokens before ++ ·) ?_)
  rw [tokens, tokensFrom, if_pos rfl]
  exact tokensFrom_group hbody after []

/-! ## Which groups there are -/

theorem not_group_mem_letters {body cs : List Char} : .group body ∉ cs.map Token.letter := by
  intro h
  obtain ⟨_, -, hc⟩ := List.mem_map.1 h
  cases hc

/-- The body of a group has no angle bracket, as long as what was read of one has none. -/
theorem unbracketed_of_mem_tokensFrom {body : List Char} :
    ∀ {read? : Option (List Char)} {cs : List Char},
      (∀ read ∈ read?, Unbracketed read) → .group body ∈ tokensFrom read? cs →
        Unbracketed body
  | none, [], _, h => by cases h
  | some read, [], _, h => absurd h not_group_mem_letters
  | none, c :: cs, _, h => by
      rw [tokensFrom] at h
      split at h
      · exact unbracketed_of_mem_tokensFrom (by simpa using unbracketed_nil) h
      · exact unbracketed_of_mem_tokensFrom (by simp) ((List.mem_cons.1 h).resolve_left (by simp))
  | some read, c :: cs, hread, h => by
      have hread : Unbracketed read := hread read rfl
      rw [tokensFrom] at h
      split at h
      · exact unbracketed_of_mem_tokensFrom (by simpa using unbracketed_nil)
          ((List.mem_append.1 h).resolve_left not_group_mem_letters)
      · rename_i hopen
        split at h
        · rcases List.mem_cons.1 h with heq | h
          · cases heq
            exact unbracketed_reverse.2 hread
          · exact unbracketed_of_mem_tokensFrom (by simp) h
        · rename_i hclose
          refine unbracketed_of_mem_tokensFrom (fun _ hmem => ?_) h
          cases hmem
          exact unbracketed_cons.2 ⟨⟨hopen, hclose⟩, hread⟩

/-- **The groups of a text are its tokens of that kind.** -/
theorem mem_tokens_iff {cs body : List Char} : .group body ∈ tokens cs ↔ HasGroup cs body := by
  constructor
  · intro h
    obtain ⟨xs, ys, hsplit⟩ := List.append_of_mem h
    refine ⟨unbracketed_of_mem_tokensFrom (by simp) h, verbatim xs, verbatim ys, ?_⟩
    rw [← verbatim_tokens cs, hsplit, verbatim_append, verbatim_cons, List.append_assoc]
  · rintro ⟨hbody, before, after, rfl⟩
    rw [tokens_append_group hbody]
    exact List.mem_append_right _ (List.mem_cons_self ..)

/-- The body of a group. -/
def Token.body? : Token → Option (List Char)
  | group body => some body
  | letter _ => none

/-- The bodies of the groups of a text. -/
def groups (cs : List Char) : List (List Char) := (tokens cs).filterMap Token.body?

theorem mem_groups_iff {cs body : List Char} : body ∈ groups cs ↔ HasGroup cs body := by
  rw [← mem_tokens_iff, groups, List.mem_filterMap]
  constructor
  · rintro ⟨t, ht, hbody⟩
    cases t with
    | letter c => cases hbody
    | group body' =>
      cases hbody
      exact ht
  · exact fun h => ⟨_, h, rfl⟩

/-- So what holds of all of them can be decided. -/
instance (cs : List Char) (p : List Char → Prop) [DecidablePred p] :
    Decidable (∀ body, HasGroup cs body → p body) :=
  decidable_of_iff (∀ body ∈ groups cs, p body) (by simp only [mem_groups_iff])

end Colloquy.Markup
