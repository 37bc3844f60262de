import Colloquy.Proofs.Markup.Brackets
import Colloquy.Proofs.Markup.Group
import Mathlib.Data.List.Forall2

/-!
# Proofs/Markup/Passage — no markup is lost

A sentence is a run of passages: letters, bracket groups that stand alone, complex tags from the
opening to the closing, and at its end perhaps one that is never closed. A passage carries the proof
that it is one: a `Begun` tag is opened by its group, and no group of its content closes it. So
there is one way to divide a sentence (`divides_iff`). What comes of a sentence is what comes of its
passages, one after the other (`Accounts`), and of each passage with a tag comes one piece that is
no letter (`Reading.accounted_ofText`).
-/

namespace Colloquy.Markup

/-! ## Passages -/

/-- A complex tag that a group has opened, and the tokens of its content so far. -/
structure Begun where
  opener : List Char
  tag : Opened
  opens : opens? opener = some tag
  content : List Token
  within : ∀ body, .group body ∈ content → tag.isClosedBy body = false

namespace Begun

/-- What it has been read from. -/
def tokens (b : Begun) : List Token := .group b.opener :: b.content

/-- The tag with its content, as it stands in the sentence. -/
def opened (b : Begun) : Opened := { b.tag with content := verbatim b.content }

/-- A tag right behind its opening. -/
def start {opener : List Char} {o : Opened} (h : opens? opener = some o) : Begun :=
  ⟨opener, o, h, [], fun _ hmem => absurd hmem List.not_mem_nil⟩

theorem opened_start {opener : List Char} {o : Opened} (h : opens? opener = some o) :
    (start h).opened = o := by
  have hcontent : o.content = [] := (of_opens? h).2.2
  calc (start h).opened = { o with content := [] } := rfl
    _ = o := by rw [← hcontent]

/-- One more token of the content. -/
def more (b : Begun) (t : Token) (h : ∀ body, t = .group body → b.tag.isClosedBy body = false) :
    Begun :=
  { b with
    content := b.content ++ [t]
    within := fun body hmem => (List.mem_append.1 hmem).elim (b.within body) fun hlast =>
      h body (List.mem_singleton.1 hlast).symm }

end Begun

/-- A part of a sentence that is read as a whole. -/
inductive Passage
  | letter (c : Char)
  /-- A group that opens no complex tag. -/
  | group (body : List Char) (h : opens? body = none)
  /-- A complex tag up to the group that closes it. -/
  | element (b : Begun) (closer : List Char) (h : b.tag.isClosedBy closer = true)
  /-- A complex tag that is open at the end. -/
  | unclosed (b : Begun)

namespace Passage

/-- The tokens of a passage. -/
def tokens : Passage → List Token
  | letter c => [.letter c]
  | group body _ => [.group body]
  | element b closer _ => b.tokens ++ [.group closer]
  | unclosed b => b.tokens

/-- Whether a passage has a tag: it is a group with a keyword, or begins with one that opens a
complex tag. -/
def isTag : Passage → Bool
  | letter _ => false
  | group body _ => (keyword? body).isSome
  | element .. | unclosed _ => true

/-- Whether a passage is read to its end. -/
def isComplete : Passage → Bool
  | unclosed _ => false
  | _ => true

/-- What comes of a passage. A letter is shown, and so is a group without a keyword. Of a group with
a keyword comes one piece that is no letter, of a complex tag what its value and content make, and
of one that is never closed the issue that says so. -/
inductive Gives : Passage → List Piece → Prop
  | letter (c : Char) : Gives (.letter c) [.letter c]
  | verbatim {body : List Char} {h : opens? body = none} (hk : keyword? body = none) :
    Gives (.group body h) ((Token.group body).verbatim.map .letter)
  | piece {body : List Char} {h : opens? body = none} {k : Keyword} {p : Piece}
    (hk : keyword? body = some k) (hp : p.isLetter = false) : Gives (.group body h) [p]
  | element {b : Begun} {closer : List Char} {h : b.tag.isClosedBy closer = true} :
    Gives (.element b closer h) [b.opened.outcome]
  | unclosed {b : Begun} : Gives (.unclosed b) [.issue (.unclosed b.tag.word)]

end Passage

/-! ## The passages of a sentence -/

/-- The passage that a token completes, if any, and the complex tag that is open behind it. -/
def advance : Option Begun → Token → Option Passage × Option Begun
  | none, .letter c => (some (.letter c), none)
  | none, .group body =>
    match h : opens? body with
    | none => (some (.group body h), none)
    | some _ => (none, some (.start h))
  | some b, .letter c => (none, some (b.more (.letter c) fun _ h => by cases h))
  | some b, .group body =>
    if h : b.tag.isClosedBy body = true then (some (.element b body h), none)
    else (none, some (b.more (.group body) fun _ heq => by
      cases heq
      exact Bool.eq_false_iff.2 h))

/-- The passages of some tokens, behind a complex tag or not. -/
def passagesFrom : Option Begun → List Token → List Passage
  | none, [] => []
  | some b, [] => [.unclosed b]
  | b?, t :: ts => (advance b? t).1.toList ++ passagesFrom (advance b? t).2 ts

/-- The passages of a raw sentence. -/
def passages (raw : String) : List Passage := passagesFrom none (tokens raw.toList)

/-- What a token may do: complete a passage, open a complex tag, or be content of one. -/
inductive Advances : Option Begun → Token → Option Passage × Option Begun → Prop
  | letter (c : Char) : Advances none (.letter c) (some (.letter c), none)
  | alone {body : List Char} (h : opens? body = none) :
    Advances none (.group body) (some (.group body h), none)
  | opening {body : List Char} {o : Opened} (h : opens? body = some o) :
    Advances none (.group body) (none, some (.start h))
  | closing {b : Begun} {body : List Char} (h : b.tag.isClosedBy body = true) :
    Advances (some b) (.group body) (some (.element b body h), none)
  | within {b : Begun} {t : Token} (h : ∀ body, t = .group body → b.tag.isClosedBy body = false) :
    Advances (some b) t (none, some (b.more t h))

/-- That is what it does. -/
theorem advances_advance (b? : Option Begun) (t : Token) : Advances b? t (advance b? t) := by
  cases b? with
  | none =>
    cases t with
    | letter c => exact .letter c
    | group body =>
      rw [advance]
      split
      · exact .alone _
      · exact .opening _
  | some b =>
    cases t with
    | letter c => exact .within _
    | group body =>
      rw [advance]
      split
      · exact .closing _
      · exact .within _

variable {b? : Option Begun} {t : Token} {next : Option Passage × Option Begun}

/-! ### The passages are the sentence -/

/-- The tokens of a complex tag that is open. -/
def openTokens (b? : Option Begun) : List Token := b?.elim [] Begun.tokens

theorem Advances.tokens (h : Advances b? t next) :
    next.1.toList.flatMap Passage.tokens ++ openTokens next.2 = openTokens b? ++ [t] := by
  cases h with
  | closing h => simp [openTokens, Passage.tokens]
  | _ => rfl

/-- Passages written one after the other give the tokens back. -/
theorem tokens_passagesFrom (ts : List Token) :
    ∀ b? : Option Begun, (passagesFrom b? ts).flatMap Passage.tokens = openTokens b? ++ ts := by
  induction ts with
  | nil =>
    intro b?
    cases b? <;> simp [passagesFrom, openTokens, Passage.tokens]
  | cons t ts ih =>
    intro b?
    rw [passagesFrom, List.flatMap_append, ih, ← List.append_assoc, (advances_advance b? t).tokens,
      List.append_assoc, List.singleton_append]

theorem Advances.isComplete (h : Advances b? t next) :
    ∀ p ∈ next.1.toList, p.isComplete = true := by
  cases h <;> simp [Passage.isComplete]

/-- A complex tag that is never closed is what a sentence ends with. -/
theorem isComplete_of_mem_dropLast (ts : List Token) :
    ∀ b? : Option Begun, ∀ p ∈ (passagesFrom b? ts).dropLast, p.isComplete = true := by
  induction ts with
  | nil =>
    intro b? p hp
    cases b? <;> cases hp
  | cons t ts ih =>
    intro b? p hp
    rw [passagesFrom, List.dropLast_append] at hp
    split at hp
    · exact (advances_advance b? t).isComplete p (List.dropLast_subset _ hp)
    · obtain hp | hp := List.mem_append.1 hp
      · exact (advances_advance b? t).isComplete p hp
      · exact ih _ p hp

/-! ### There is one way to divide a sentence -/

theorem Advances.eq (h : Advances b? t next) : advance b? t = next := by
  have hstep := advances_advance b? t
  generalize advance b? t = next' at hstep ⊢
  cases h with
  | letter c =>
    cases hstep
    rfl
  | alone ho =>
    cases hstep with
    | alone => rfl
    | opening ho' => cases ho.symm.trans ho'
  | opening ho =>
    cases hstep with
    | alone ho' => cases ho.symm.trans ho'
    | opening ho' =>
      cases Option.some_inj.1 (ho.symm.trans ho')
      rfl
  | closing hc =>
    cases hstep with
    | closing => rfl
    | within hopen => cases hc.symm.trans (hopen _ rfl)
  | within hopen =>
    cases hstep with
    | closing hc => cases hc.symm.trans (hopen _ rfl)
    | within => rfl

theorem Advances.passagesFrom_cons (h : Advances b? t next) (ts : List Token) :
    passagesFrom b? (t :: ts) = next.1.toList ++ passagesFrom next.2 ts := by
  rw [passagesFrom, h.eq]

/-- Behind a complex tag, tokens that do not close it are content of it. -/
theorem passagesFrom_content (us ts : List Token) :
    ∀ (b : Begun) (h : ∀ body, .group body ∈ b.content ++ ts → b.tag.isClosedBy body = false),
      passagesFrom (some b) (ts ++ us) =
        passagesFrom (some { b with content := b.content ++ ts, within := h }) us := by
  induction ts with
  | nil =>
    intro b h
    simp only [List.append_nil, List.nil_append]
  | cons t ts ih =>
    intro b h
    have ht : ∀ body, t = .group body → b.tag.isClosedBy body = false := fun body heq =>
      h body (List.mem_append_right _ (heq ▸ List.mem_cons_self ..))
    have hmore : (b.more t ht).content ++ ts = b.content ++ t :: ts := List.append_assoc ..
    rw [List.cons_append, (Advances.within ht).passagesFrom_cons, ih _ (by rw [hmore]; exact h)]
    simp only [hmore]
    rfl

/-- A complex tag is opened by its group and has its content then. -/
theorem passagesFrom_begun (b : Begun) (us : List Token) :
    passagesFrom none (b.tokens ++ us) = passagesFrom (some b) us := by
  rw [Begun.tokens, List.cons_append, (Advances.opening b.opens).passagesFrom_cons]
  exact passagesFrom_content us b.content (.start b.opens) b.within

theorem passagesFrom_cons {p : Passage} (hp : p.isComplete = true) (us : List Token) :
    passagesFrom none (p.tokens ++ us) = p :: passagesFrom none us := by
  cases p with
  | letter c => exact (Advances.letter c).passagesFrom_cons us
  | group body h => exact (Advances.alone h).passagesFrom_cons us
  | element b closer h =>
    rw [Passage.tokens, List.append_assoc, passagesFrom_begun]
    exact (Advances.closing h).passagesFrom_cons us
  | unclosed b => cases hp

/-- Passages, all but the last of them read to the end, are the ones of their tokens. -/
theorem passagesFrom_tokens {ps : List Passage} (h : ∀ p ∈ ps.dropLast, p.isComplete = true) :
    passagesFrom none (ps.flatMap Passage.tokens) = ps := by
  induction ps with
  | nil => rfl
  | cons p ps ih =>
    rw [List.flatMap_cons]
    cases ps with
    | cons q ps =>
      rw [passagesFrom_cons (h p (List.mem_cons_self ..)),
        ih fun r hr => h r (List.mem_cons_of_mem p hr)]
    -- only the last one may be open
    | nil =>
      cases p with
      | unclosed b => exact passagesFrom_begun b []
      | _ => exact passagesFrom_cons rfl []

/-- Passages divide a sentence: they are all of it, and only at its end may a complex tag be
open. -/
structure Divides (ps : List Passage) (raw : String) : Prop where
  tokens : ps.flatMap Passage.tokens = tokens raw.toList
  complete : ∀ p ∈ ps.dropLast, p.isComplete = true

/-- A sentence is divided in one way only. -/
theorem divides_iff {ps : List Passage} {raw : String} : Divides ps raw ↔ ps = passages raw := by
  constructor
  · rintro ⟨htokens, hcomplete⟩
    rw [passages, ← htokens, passagesFrom_tokens hcomplete]
  · rintro rfl
    exact ⟨tokens_passagesFrom _ none, isComplete_of_mem_dropLast _ none⟩

/-! ## What comes of the passages -/

/-- The pieces are what comes of the passages, one after the other. -/
def Accounts (ps : List Passage) (pieces : List Piece) : Prop :=
  ∃ pss, List.Forall₂ Passage.Gives ps pss ∧ pieces = pss.flatten

theorem accounts_nil : Accounts [] [] := ⟨[], .nil, rfl⟩

theorem accounts_singleton {p : Passage} {pieces : List Piece} (h : p.Gives pieces) :
    Accounts [p] pieces := ⟨[pieces], .cons h .nil, (List.append_nil _).symm⟩

theorem Accounts.append {ps qs : List Passage} {xs ys : List Piece} (hp : Accounts ps xs)
    (hq : Accounts qs ys) : Accounts (ps ++ qs) (xs ++ ys) := by
  obtain ⟨pss, hpss, rfl⟩ := hp
  obtain ⟨qss, hqss, rfl⟩ := hq
  exact ⟨pss ++ qss, List.rel_append hpss hqss, List.flatten_append.symm⟩

/-- Where reading stands, inside of a complex tag or not. -/
def standing (b? : Option Begun) (vars : Variables) : Standing := ⟨b?.map Begun.opened, vars⟩

/-- A token is read as the passage that it completes. -/
theorem Advances.accounts (h : Advances b? t next) (vars : Variables) :
    let s := readToken (standing b? vars) t
    Accounts next.1.toList s.pieces ∧ s.standing = standing next.2 s.standing.vars := by
  intro s
  cases h with
  | letter c => exact ⟨accounts_singleton (.letter c), rfl⟩
  | @alone body ho =>
    have hyields : Yields body vars s := yields_readGroup body vars
    clear_value s
    cases hyields with
    | verbatim hk => exact ⟨accounts_singleton (.verbatim hk), rfl⟩
    | opening ho' => cases ho.symm.trans ho'
    | piece hk _ hp => exact ⟨accounts_singleton (.piece hk hp), rfl⟩
  | @opening body o ho =>
    have hs : s = ⟨[], ⟨some o, vars⟩, []⟩ := readGroup_of_opens? ho vars
    rw [hs, standing, Option.map_some, Begun.opened_start]
    exact ⟨accounts_nil, rfl⟩
  | @closing b body hc =>
    obtain ⟨trace, hclose⟩ := b.opened.close_eq vars
    have hs : s = b.opened.close vars := if_pos hc
    rw [hs, hclose]
    exact ⟨accounts_singleton .element, rfl⟩
  | @within b t hc =>
    have hopen : ∀ body, t = .group body → b.opened.isClosedBy body = false := hc
    have hs : s = _ := readToken_content hopen vars
    have hmore : (b.more t hc).opened =
        { b.opened with content := b.opened.content ++ t.verbatim } := by
      simp [Begun.opened, Begun.more]
    rw [hs, standing, Option.map_some, hmore]
    exact ⟨accounts_nil, rfl⟩

/-- Tokens are read as their passages. -/
theorem accounts_ofTokens (ts : List Token) :
    ∀ (b? : Option Begun) (vars : Variables),
      Accounts (passagesFrom b? ts) (Reading.ofTokens (standing b? vars) ts).pieces := by
  induction ts with
  | nil =>
    intro b? vars
    cases b? with
    | none => exact accounts_nil
    | some b => exact accounts_singleton .unclosed
  | cons t ts ih =>
    intro b? vars
    obtain ⟨hpieces, hstanding⟩ := (advances_advance b? t).accounts vars
    rw [passagesFrom, Reading.ofTokens, hstanding]
    exact hpieces.append (ih _ _)

/-! ## Counting -/

/-- The text that a piece puts for a variable. -/
def Piece.value? : Piece → Option String
  | value text => some text
  | _ => none

/-- The texts that reading put for variables, in order. -/
def Reading.substitutions (r : Reading) : List String := r.pieces.filterMap Piece.value?

/-- A piece that is no letter is a command, a substitution, a binding or an issue. -/
theorem length_outcomes (ps : List Piece) :
    (ps.filterMap Piece.command?).length + (ps.filterMap Piece.value?).length +
        (ps.filterMap Piece.registration?).length + (ps.filterMap Piece.issue?).length =
      ps.countP (!·.isLetter) := by
  simp only [List.length_filterMap_eq_countP]
  induction ps with
  | nil => rfl
  | cons p ps ih =>
    have hp : (if p.command?.isSome then 1 else 0) + (if p.value?.isSome then 1 else 0) +
        (if p.registration?.isSome then 1 else 0) + (if p.issue?.isSome then 1 else 0) =
          if !p.isLetter then 1 else 0 := by cases p <;> rfl
    simp only [List.countP_cons]
    omega

theorem Passage.Gives.countP {p : Passage} {pieces : List Piece} (h : p.Gives pieces) :
    pieces.countP (!·.isLetter) = if p.isTag then 1 else 0 := by
  cases h with
  | letter c => rfl
  | verbatim hk =>
    rw [List.countP_eq_zero.2 fun p hp => ?_]
    · simp [Passage.isTag, hk]
    · obtain ⟨c, -, rfl⟩ := List.mem_map.1 hp
      simp [Piece.isLetter]
  | piece hk hp => simp [Passage.isTag, hk, hp]
  | @element b => simp [Passage.isTag, b.opened.isLetter_outcome]
  | unclosed => rfl

/-- Of each passage with a tag comes one piece that is no letter. -/
theorem Accounts.countP {ps : List Passage} {pieces : List Piece} (h : Accounts ps pieces) :
    pieces.countP (!·.isLetter) = ps.countP Passage.isTag := by
  obtain ⟨pss, hpss, rfl⟩ := h
  induction hpss with
  | nil => rfl
  | cons hp _ ih => rw [List.flatten_cons, List.countP_append, hp.countP, ih, List.countP_cons,
      Nat.add_comm]

/-- **No markup is lost.** A sentence is divided into passages in one way, which is the same for all
variables, and has the groups of the sentence. What comes of it is what comes of the passages: each
with a tag is a command, a substitution, a binding or an issue, and these are as many. -/
theorem Reading.accounted_ofText (vars : Variables) (raw : String) :
    let r := ofText vars raw
    let ps := passages raw
    (∀ qs, Divides qs raw ↔ qs = ps) ∧
      (∀ body, .group body ∈ ps.flatMap Passage.tokens ↔ HasGroup raw.toList body) ∧
      Accounts ps r.pieces ∧ r.vars = bindAll vars r.registrations ∧
      r.sentence.tags.length + r.substitutions.length + r.registrations.length +
        r.sentence.issues.length = ps.countP Passage.isTag := by
  intro r ps
  have htokens : ps.flatMap Passage.tokens = tokens raw.toList := tokens_passagesFrom _ none
  have haccounts : Accounts ps r.pieces := accounts_ofTokens (tokens raw.toList) none vars
  have hvars : r.vars = bindAll vars r.registrations := by
    obtain ⟨hpieces, hvars⟩ := reading_fills vars raw
    rw [hvars, varsAfter_eq_bindAll, ← hpieces]
    rfl
  have htags : r.sentence.tags.length = (r.pieces.filterMap Piece.command?).length := by
    rw [← map_command_tags_sentence, List.length_map]
  refine ⟨fun _ => divides_iff, fun _ => ?_, haccounts, hvars, ?_⟩
  · rw [htokens, mem_tokens_iff]
  · rw [htags, ← haccounts.countP]
    exact length_outcomes r.pieces

end Colloquy.Markup
