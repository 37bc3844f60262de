import Colloquy.Markup.Reading
import Mathlib.Data.List.Basic

/-!
# Proofs/Template — what a variable holds is never read as markup

A raw sentence has a template that no variable has a say in: letters, commands, bindings and issues,
and a hole for each tag that asks for the value of a variable (`template`). Reading the sentence for
some variables fills the holes, one after the other, each with what its variable holds by then
(`reading_eq_fill`). So two readings of one sentence differ in the texts that fill the holes, and in
nothing else.
-/

namespace Colloquy.Markup

/-! ## Templates -/

/-- A place in the template of a sentence. -/
inductive Slot
  /-- What the sentence alone decides. -/
  | fixed (p : Piece)
  /-- The value of a variable, read as a kind. -/
  | hole (name : String) (kind : Kind)
deriving DecidableEq

/-- The variable that an opening tag asks for, and the kind it is read as. -/
def retrieval? (body : List Char) : Option (String × Kind) :=
  match Keyword.ofWord? (openingParts body).1, (openingParts body).2 with
  | some (.retrieve kind), some name => if name = "" then none else some (name, kind)
  | _, _ => none

/-- What a token comes to where there are no variables. -/
def readBlind (opened : Option Opened) (t : Token) : Step := readToken ⟨opened, .empty⟩ t

/-- The slots of a token: a hole for a tag that asks for a variable, outside of any content. -/
def slotsOf (opened : Option Opened) (t : Token) : List Slot :=
  match opened, t with
  | none, .group body =>
    match closingWord? body, retrieval? body with
    | none, some (name, kind) => [.hole name kind]
    | _, _ => (readBlind none (.group body)).pieces.map .fixed
  | opened, t => (readBlind opened t).pieces.map .fixed

/-- The slots of tokens, inside of a complex tag or not. -/
def slotsFrom (opened : Option Opened) : List Token → List Slot
  | [] => (Reading.ofTokens ⟨opened, .empty⟩ []).pieces.map .fixed
  | t :: ts => slotsOf opened t ++ slotsFrom (readBlind opened t).standing.opened ts

/-- The template of a raw sentence. -/
def template (raw : String) : List Slot := slotsFrom none (tokens raw.toList)

/-! ## Filling a template -/

/-- The name and the value that a piece binds. -/
def Piece.registration? : Piece → Option (String × Value)
  | registration name v => some (name, v)
  | _ => none

/-- The command that a piece is. -/
def Piece.command? : Piece → Option Command
  | command c => some c
  | _ => none

/-- The bindings that reading made, in order. -/
def Reading.registrations (r : Reading) : List (String × Value) :=
  r.pieces.filterMap Piece.registration?

/-- Binds names to values, one after the other. -/
def bindAll (vars : Variables) (bindings : List (String × Value)) : Variables :=
  bindings.foldl (fun vars b => (vars.register b.1 b.2).vars) vars

/-- The piece that a slot becomes. -/
def Slot.fill (vars : Variables) : Slot → Piece
  | fixed p => p
  | hole name kind => .value (vars.retrieveAs name kind).value.toText

/-- The variables after a slot. -/
def Slot.vars (vars : Variables) : Slot → Variables
  | fixed p => bindAll vars p.registration?.toList
  | hole .. => vars

/-- The pieces that slots become, one after the other. -/
def fill (vars : Variables) : List Slot → List Piece
  | [] => []
  | s :: ss => s.fill vars :: fill (s.vars vars) ss

/-- The variables after slots. -/
def varsAfter (vars : Variables) (ss : List Slot) : Variables := ss.foldl Slot.vars vars

theorem fill_append (ss ts : List Slot) :
    ∀ vars : Variables, fill vars (ss ++ ts) = fill vars ss ++ fill (varsAfter vars ss) ts := by
  induction ss with
  | nil => intro vars; rfl
  | cons s ss ih =>
    intro vars
    rw [List.cons_append, fill, ih, fill]
    rfl

theorem varsAfter_append (vars : Variables) (ss ts : List Slot) :
    varsAfter vars (ss ++ ts) = varsAfter (varsAfter vars ss) ts := List.foldl_append

/-- Pieces that are fixed are what they are, whatever the variables hold. -/
theorem fill_fixed (ps : List Piece) : ∀ vars : Variables, fill vars (ps.map .fixed) = ps := by
  induction ps with
  | nil => intro vars; rfl
  | cons p ps ih => intro vars; rw [List.map_cons, fill, ih]; rfl

theorem varsAfter_fixed (ps : List Piece) :
    ∀ vars : Variables,
      varsAfter vars (ps.map .fixed) = bindAll vars (ps.filterMap Piece.registration?) := by
  induction ps with
  | nil => intro vars; rfl
  | cons p ps ih =>
    intro vars
    rw [List.map_cons, varsAfter, List.foldl_cons, ← varsAfter, ih, Slot.vars]
    cases p <;> rfl

/-! ## Steps that no variable has a say in -/

/-- What comes of reading does not depend on the variables, but for the bindings that it adds. -/
def Blind (s : Variables → Step) : Prop :=
  ∃ ps opened, ∀ vars, (s vars).pieces = ps ∧
    (s vars).standing = ⟨opened, bindAll vars (ps.filterMap Piece.registration?)⟩

theorem blind_only {ps : List Piece} (h : ps.filterMap Piece.registration? = []) :
    Blind (Step.only ps) := ⟨ps, none, fun vars => ⟨rfl, by rw [h]; rfl⟩⟩

theorem blind_drop (i : Issue) : Blind (Step.drop i) := ⟨_, none, fun _ => ⟨rfl, rfl⟩⟩

theorem blind_verbatim (body : List Char) : Blind (Step.verbatim body) :=
  blind_only (List.filterMap_eq_nil_iff.2 fun p hp => by
    obtain ⟨c, -, rfl⟩ := List.mem_map.1 hp
    rfl)

/-- Closing a complex tag binds what its content says, and the content is text of the sentence. -/
theorem blind_close (o : Opened) : Blind o.close := by
  obtain ⟨closing, word, value, content⟩ := o
  cases closing with
  | command e => exact blind_only rfl
  | register kind =>
    cases h : kind.parse? (String.ofList content) with
    | some v =>
      refine ⟨[.registration value v], none, fun vars => ?_⟩
      simp only [Opened.close, h, Variables.registerText_of_readable h]
      exact ⟨trivial, rfl⟩
    | none =>
      refine ⟨[.issue (.badLiteral word (String.ofList content))], none, fun vars => ?_⟩
      simp only [Opened.close, h, Variables.registerText_of_unreadable h]
      exact ⟨trivial, rfl⟩

/-- A keyword other than `retrieve` takes no account of the variables. -/
theorem blind_apply {k : Keyword} (hk : ∀ kind, k ≠ .retrieve kind) (word value : String) :
    Blind (k.apply word value) := by
  cases k with
  | bare b => exact blind_only rfl
  | timed t =>
    unfold Keyword.apply
    cases Single.ofChars? value.toList with
    | some x => exact blind_only rfl
    | none => exact blind_drop _
  | worded w => exact blind_only rfl
  | enclosing e => exact ⟨[], _, fun _ => ⟨rfl, rfl⟩⟩
  | register kind => exact ⟨[], _, fun _ => ⟨rfl, rfl⟩⟩
  | retrieve kind => exact absurd rfl (hk kind)

/-- What a keyword comes to that needs a value, whether it has one or not. -/
def valued (k : Keyword) (word : String) (value? : Option String) (vars : Variables) : Step :=
  match value? with
  | some value =>
    if value = "" then .drop (.missingValue word) vars else k.apply word value vars
  | none => .drop (.missingValue word) vars

theorem blind_valued_of_ne {k : Keyword} (hk : ∀ kind, k ≠ .retrieve kind) (word : String)
    (value? : Option String) : Blind (valued k word value?) := by
  unfold valued
  cases value? with
  | none => exact blind_drop _
  | some value =>
    by_cases hv : value = ""
    · simpa only [if_pos hv] using blind_drop (.missingValue word)
    · simpa only [if_neg hv] using blind_apply hk word value

theorem readOpening_eq (body : List Char) :
    readOpening body = match Keyword.ofWord? (openingParts body).1 with
      | none => Step.verbatim body
      | some (.bare b) => Step.only [.command b.command]
      | some k => valued k (openingParts body).1 (openingParts body).2 := by
  funext vars
  unfold readOpening valued
  generalize openingParts body = parts
  obtain ⟨word, value?⟩ := parts
  cases hk : Keyword.ofWord? word with
  | none => simp only [hk]
  | some k => cases k <;> cases value? <;> simp only [hk]

/-- An opening tag that asks for no variable takes no account of them. -/
theorem blind_readOpening {body : List Char} (h : retrieval? body = none) :
    Blind (readOpening body) := by
  rw [readOpening_eq]
  unfold retrieval? at h
  split
  · exact blind_verbatim body
  · exact blind_only rfl
  · rename_i k hb hk
    cases k with
    | retrieve kind =>
      rw [hk] at h
      unfold valued
      cases hv : (openingParts body).2 with
      | none => exact blind_drop _
      | some name =>
        have hn : name = "" := by
          by_contra hn
          simp [hv, hn] at h
        simpa only [if_pos hn] using blind_drop _
    | _ => exact blind_valued_of_ne (by simp) _ _

/-- One that asks for a variable becomes its value, and nothing else comes of it. -/
theorem readOpening_of_retrieval {body : List Char} {name : String} {kind : Kind}
    (h : retrieval? body = some (name, kind)) (vars : Variables) :
    (readOpening body vars).pieces = [(Slot.hole name kind).fill vars] ∧
      (readOpening body vars).standing = ⟨none, vars⟩ := by
  unfold retrieval? at h
  split at h
  · rename_i k value hk hv
    split at h
    · cases h
    · rename_i hn
      cases h
      rw [readOpening_eq, hk, hv]
      simp only [valued, if_neg hn]
      exact ⟨rfl, rfl⟩
  · cases h

/-! ## Reading is filling -/

/-- What comes of reading one token or several is the filling of some slots. -/
theorem Blind.fills {s : Variables → Step} (h : Blind s) (vars : Variables) :
    (s vars).pieces = fill vars ((s .empty).pieces.map .fixed) ∧
      (s vars).standing = ⟨(s .empty).standing.opened,
        varsAfter vars ((s .empty).pieces.map .fixed)⟩ := by
  obtain ⟨ps, opened, hs⟩ := h
  obtain ⟨hp, ho⟩ := hs .empty
  rw [fill_fixed, varsAfter_fixed, hp, ho]
  exact hs vars

theorem blind_readGroup {body : List Char}
    (h : closingWord? body = none → retrieval? body = none) : Blind (readGroup body) := by
  unfold readGroup
  cases hc : closingWord? body with
  | none => simpa only [hc] using blind_readOpening (h hc)
  | some word =>
    by_cases hk : (Keyword.ofWord? word).isSome
    · simpa only [if_pos hk] using blind_drop (.strayClose word)
    · simpa only [if_neg hk] using blind_verbatim body

/-- Inside of a complex tag no token takes account of the variables. -/
theorem blind_readToken_opened (o : Opened) (t : Token) :
    Blind fun vars => readToken ⟨some o, vars⟩ t := by
  unfold readToken
  cases t with
  | letter c => exact ⟨[], _, fun _ => ⟨rfl, rfl⟩⟩
  | group body =>
    by_cases hc : o.isClosedBy body
    · simpa only [if_pos hc] using blind_close o
    · simp only [if_neg hc]
      exact ⟨[], _, fun _ => ⟨rfl, rfl⟩⟩

/-- **A token fills its slots**, and whether it opens or closes a complex tag is up to it alone. -/
theorem readToken_fills (opened : Option Opened) (t : Token) (vars : Variables) :
    (readToken ⟨opened, vars⟩ t).pieces = fill vars (slotsOf opened t) ∧
      (readToken ⟨opened, vars⟩ t).standing =
        ⟨(readBlind opened t).standing.opened, varsAfter vars (slotsOf opened t)⟩ := by
  cases opened with
  | some o => exact (blind_readToken_opened o t).fills vars
  | none =>
    cases t with
    | letter c => exact ⟨rfl, rfl⟩
    | group body =>
      cases hc : closingWord? body with
      | some word =>
        have hb : Blind (readGroup body) := blind_readGroup (by simp [hc])
        simp only [slotsOf, hc]
        exact hb.fills vars
      | none =>
        cases hr : retrieval? body with
        | none =>
          have hb : Blind (readGroup body) := blind_readGroup fun _ => hr
          simp only [slotsOf, hc, hr]
          exact hb.fills vars
        | some found =>
          have hg : ∀ vars, readToken ⟨none, vars⟩ (.group body) = readOpening body vars :=
            fun vars => by simp only [readToken, readGroup, hc]
          obtain ⟨hp, hs⟩ := readOpening_of_retrieval hr vars
          rw [readBlind, hg, hg, hp, hs, (readOpening_of_retrieval hr .empty).2]
          simp only [slotsOf, hc, hr]
          exact ⟨rfl, rfl⟩

/-- Reading fills the template that tokens have, from wherever reading stands. -/
theorem ofTokens_fills (ts : List Token) :
    ∀ (opened : Option Opened) (vars : Variables),
      (Reading.ofTokens ⟨opened, vars⟩ ts).pieces = fill vars (slotsFrom opened ts) ∧
        (Reading.ofTokens ⟨opened, vars⟩ ts).vars = varsAfter vars (slotsFrom opened ts) := by
  induction ts with
  | nil =>
    intro opened vars
    cases opened <;> exact ⟨rfl, rfl⟩
  | cons t ts ih =>
    intro opened vars
    obtain ⟨hp, hs⟩ := readToken_fills opened t vars
    obtain ⟨ihp, ihv⟩ := ih (readBlind opened t).standing.opened (varsAfter vars (slotsOf opened t))
    rw [Reading.ofTokens, slotsFrom, fill_append, varsAfter_append]
    simp only [hp, hs, ihp, ihv]
    exact ⟨trivial, trivial⟩

/-- **Reading a sentence fills its template.** -/
theorem reading_fills (vars : Variables) (raw : String) :
    (Reading.ofText vars raw).pieces = fill vars (template raw) ∧
      (Reading.ofText vars raw).vars = varsAfter vars (template raw) :=
  ofTokens_fills _ none vars

/-! ## Two readings of one sentence -/

/-- The characters of a template, its holes filled with some texts, in order. -/
def write : List Slot → List String → List Char
  | [], _ => []
  | .fixed p :: ss, ts => characters p.beats ++ write ss ts
  | .hole .. :: ss, [] => write ss []
  | .hole .. :: ss, t :: ts => t.toList ++ write ss ts

/-- The texts that fill the holes of a template. -/
def substituted (vars : Variables) : List Slot → List String
  | [] => []
  | .fixed p :: ss => substituted ((Slot.fixed p).vars vars) ss
  | .hole name kind :: ss => (vars.retrieveAs name kind).value.toText :: substituted vars ss

/-- A variable and the kind it is read as, for each hole of a template. -/
def holes (ss : List Slot) : List (String × Kind) :=
  ss.filterMap fun
    | .hole name kind => some (name, kind)
    | .fixed _ => none

theorem length_substituted (ss : List Slot) :
    ∀ vars : Variables, (substituted vars ss).length = (holes ss).length := by
  induction ss with
  | nil => intro vars; rfl
  | cons s ss ih =>
    intro vars
    cases s with
    | fixed p => exact ih _
    | hole name kind => exact congrArg (· + 1) (ih vars)

/-- What is visible is the template with its holes filled. -/
theorem characters_fill (ss : List Slot) :
    ∀ vars : Variables,
      characters ((fill vars ss).flatMap Piece.beats) = write ss (substituted vars ss) := by
  induction ss with
  | nil => intro vars; rfl
  | cons s ss ih =>
    intro vars
    rw [fill, List.flatMap_cons, characters_append, ih]
    cases s with
    | fixed p => rfl
    | hole name kind =>
      rw [Slot.fill, Piece.beats, characters_map_character]
      rfl

/-- The part of a template that a view of its pieces sees, if the view overlooks values. -/
theorem filterMap_fill {β : Type} {view : Piece → Option β} (hv : ∀ text, view (.value text) = none)
    (ss : List Slot) :
    ∀ v w : Variables, (fill v ss).filterMap view = (fill w ss).filterMap view := by
  induction ss with
  | nil => intro v w; rfl
  | cons s ss ih =>
    intro v w
    rw [fill, fill, List.filterMap_cons, List.filterMap_cons, ih (s.vars v) (s.vars w)]
    cases s with
    | fixed p => rfl
    | hole name kind => rw [Slot.fill, Slot.fill, hv, hv]

theorem varsAfter_eq_bindAll (ss : List Slot) :
    ∀ vars : Variables,
      varsAfter vars ss = bindAll vars ((fill vars ss).filterMap Piece.registration?) := by
  induction ss with
  | nil => intro vars; rfl
  | cons s ss ih =>
    intro vars
    rw [varsAfter, List.foldl_cons, ← varsAfter, ih]
    cases s with
    | fixed p => cases p <;> rfl
    | hole name kind => rfl

theorem map_command_tagsFrom (ps : List Piece) :
    ∀ n : Nat, (tagsFrom n (ps.flatMap Piece.beats)).map (·.command) =
      ps.filterMap Piece.command? := by
  induction ps with
  | nil => intro n; rfl
  | cons p ps ih =>
    intro n
    rw [List.flatMap_cons, tagsFrom_append, List.map_append, ih]
    cases p with
    | value text => rw [Piece.beats, tagsFrom_map_character]; rfl
    | _ => rfl

/-- The commands of a sentence are those among its pieces. -/
theorem map_command_tags_sentence (r : Reading) :
    r.sentence.tags.map (·.command) = r.pieces.filterMap Piece.command? :=
  map_command_tagsFrom r.pieces 0

theorem get?_bindAll_of_not_mem {name : String} {bindings : List (String × Value)}
    (h : name ∉ bindings.map (·.1)) :
    ∀ vars : Variables, (bindAll vars bindings).get? name = vars.get? name := by
  induction bindings with
  | nil => intro vars; rfl
  | cons b bindings ih =>
    intro vars
    rw [List.map_cons, List.mem_cons, not_or] at h
    rw [bindAll, List.foldl_cons, ← bindAll, ih h.2, Variables.get?_register, if_neg (Ne.symm h.1)]

/-- **What variables hold cannot inject markup**: two readings of one sentence are fillings of one
template. They have the same commands, issues and bindings, they show the same text but for what
fills the holes, and a name that the sentence does not bind keeps what it held. -/
theorem readings_agree (raw : String) (v w : Variables) :
    let a := Reading.ofText v raw
    let b := Reading.ofText w raw
    a.sentence.tags.map (·.command) = b.sentence.tags.map (·.command) ∧
      a.sentence.issues = b.sentence.issues ∧
      a.registrations = b.registrations ∧
      a.vars = bindAll v a.registrations ∧ b.vars = bindAll w b.registrations ∧
      a.sentence.visible = write (template raw) (substituted v (template raw)) ∧
      b.sentence.visible = write (template raw) (substituted w (template raw)) ∧
      (substituted v (template raw)).length = (holes (template raw)).length ∧
      (substituted w (template raw)).length = (holes (template raw)).length ∧
      ∀ name, name ∉ a.registrations.map (·.1) →
        a.vars.get? name = v.get? name ∧ b.vars.get? name = w.get? name := by
  intro a b
  obtain ⟨hap, hav⟩ := reading_fills v raw
  obtain ⟨hbp, hbv⟩ := reading_fills w raw
  have hreg : a.registrations = b.registrations := by
    rw [Reading.registrations, Reading.registrations, hap, hbp]
    exact filterMap_fill (fun _ => rfl) _ v w
  have ha : a.vars = bindAll v a.registrations := by
    rw [Reading.registrations, hap, hav, varsAfter_eq_bindAll]
  have hb : b.vars = bindAll w b.registrations := by
    rw [Reading.registrations, hbp, hbv, varsAfter_eq_bindAll]
  refine ⟨?_, ?_, hreg, ha, hb, ?_, ?_, length_substituted _ _, length_substituted _ _,
    fun name hn => ⟨?_, ?_⟩⟩
  · rw [map_command_tags_sentence, map_command_tags_sentence, hap, hbp]
    exact filterMap_fill (fun _ => rfl) _ v w
  · rw [Reading.sentence, Reading.sentence, hap, hbp]
    exact filterMap_fill (fun _ => rfl) _ v w
  · rw [Sentence.visible, Reading.sentence, hap, characters_fill]
  · rw [Sentence.visible, Reading.sentence, hbp, characters_fill]
  · rw [ha, get?_bindAll_of_not_mem hn]
  · rw [hb, get?_bindAll_of_not_mem (hreg ▸ hn)]

end Colloquy.Markup
