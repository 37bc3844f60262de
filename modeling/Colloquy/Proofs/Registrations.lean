import Colloquy.Proofs.Sprites
import Mathlib.Data.List.Pairwise

/-!
# Proofs/Registrations — registering sets one after the other

A registration touches its own set only, so registrations of different sets commute
(`Sprites.after_comm`) and come to the same in every order (`Sprites.afterAll_perm`): if they are
fit, their sets are found besides what was found before (`Sprites.gains_afterAll`). Made one after
the other they end at the first unfit one, and those before it stay
(`Sprites.callAll_of_firstUnfit`).
-/

namespace Colloquy

namespace Sprites

variable {s t : Sprites} {r q : Registration} {rs qs before : List Registration}
  {family : SpriteFamily} {set sprite image : String} {e : SpriteError}

/-! ## Registrations of different sets -/

theorem ext_get? (h : ∀ family set, (s.sets family).get? set = (t.sets family).get? set) :
    s = t := by
  obtain ⟨characters, themes⟩ := s
  obtain ⟨characters', themes'⟩ := t
  obtain rfl : characters = characters' := Registry.ext_get? (h .character)
  obtain rfl : themes = themes' := Registry.ext_get? (h .theme)
  rfl

theorem Registration.Fit.set_ne (h : r.Fit) : r.set ≠ "" :=
  fun heq => h.named (heq ▸ Text.isBlank_empty)

/-- A registration puts what its entries make in its own place, and nothing in any other. -/
theorem exists_get?_after (h : r.Fit) : ∃ built, ∀ (s : Sprites) family set,
    ((s.after r).sets family).get? set =
      if r.Concerns family set then some built else (s.sets family).get? set := by
  obtain ⟨built, hbuilt, -⟩ := exists_after_of_fit (s := empty) h
  refine ⟨built, fun s family set => ?_⟩
  obtain ⟨built', hbuilt', hafter⟩ := exists_after_of_fit (s := s) h
  obtain rfl := Except.ok.inj (hbuilt.symm.trans hbuilt')
  rw [hafter, sets_withSets]
  split_ifs with hfamily hc hc
  · rw [Registry.get?_insert, if_pos hc.2]
  · rw [Registry.get?_insert, if_neg fun hset => hc ⟨hfamily.symm, hset⟩, hfamily]
  · exact absurd hc.1.symm hfamily
  · rfl

/-- **Registrations of different sets commute.** -/
theorem after_comm (h : ¬ q.Concerns r.family r.set) (s : Sprites) :
    (s.after r).after q = (s.after q).after r := by
  by_cases hr : r.Fit
  · by_cases hq : q.Fit
    · obtain ⟨built, hbuilt⟩ := exists_get?_after hr
      obtain ⟨built', hbuilt'⟩ := exists_get?_after hq
      refine ext_get? fun family set => ?_
      simp only [hbuilt, hbuilt']
      split_ifs with hqc hrc
      · obtain ⟨rfl, rfl⟩ := hrc
        exact absurd hqc h
      all_goals rfl
    · rw [after_of_not_fit hq, after_of_not_fit hq]
  · rw [after_of_not_fit hr, after_of_not_fit hr]

/-- Registrations of which no two are of one set. -/
def Apart (rs : List Registration) : Prop := rs.Pairwise fun r q => ¬ q.Concerns r.family r.set

theorem concerns_comm : q.Concerns r.family r.set ↔ r.Concerns q.family q.set :=
  and_congr eq_comm eq_comm

theorem Apart.perm (h : Apart rs) (hp : rs.Perm qs) : Apart qs :=
  (hp.pairwise_iff fun h' => mt concerns_comm.2 h').1 h

/-- Registrations of different sets come to the same in every order. -/
theorem afterAll_perm (h : Apart rs) (hp : rs.Perm qs) (s : Sprites) :
    s.afterAll rs = s.afterAll qs := by
  have : Std.Symm fun r q : Registration => ∀ s : Sprites,
      (s.after r).after q = (s.after q).after r := ⟨fun _ _ h s => (h s).symm⟩
  have hcomm := List.Pairwise.forall_of_forall (fun _ _ _ => rfl) (h.imp after_comm)
  exact hp.foldl_eq' (fun r hr q hq s => hcomm hr hq s) s

/-! ## What registrations add -/

/-- A set is found as a registration says. -/
def Shows (s : Sprites) (r : Registration) : Prop :=
  ∀ sprite image,
    (s.resolve r.family r.set sprite).value = some image ↔ ⟨sprite, image⟩ ∈ r.entries

/-- Every sprite is found as before. -/
def Alike (s t : Sprites) : Prop :=
  ∀ family set sprite, (t.resolve family set sprite).value = (s.resolve family set sprite).value

/-- What is found besides what was found before: the sets of some registrations, and nothing
else. -/
structure Gains (s : Sprites) (rs : List Registration) (t : Sprites) : Prop where
  shows : ∀ r ∈ rs, t.Shows r
  others : ∀ family set, (∀ r ∈ rs, ¬ r.Concerns family set) → ∀ sprite,
    (t.resolve family set sprite).value = (s.resolve family set sprite).value
  themes : ∀ theme, t.hasTheme theme = true ↔
    (∃ r ∈ rs, r.Concerns .theme theme) ∨ s.hasTheme theme = true

/-- Sprites that gain some sets are as before exactly if those were there before. -/
theorem Gains.alike_iff (h : s.Gains rs t) : s.Alike t ↔ ∀ r ∈ rs, s.Shows r := by
  constructor
  · intro halike r hr sprite image
    rw [← halike]
    exact h.shows r hr sprite image
  · intro hshows family set sprite
    by_cases hc : ∃ r ∈ rs, r.Concerns family set
    · obtain ⟨r, hr, rfl, rfl⟩ := hc
      refine Option.ext fun image => ?_
      rw [h.shows r hr, hshows r hr]
    · exact h.others family set (fun r hr hrc => hc ⟨r, hr, hrc⟩) sprite

theorem has_afterAll_of_not_concerns (h : ∀ r ∈ rs, ¬ r.Concerns family set) :
    (s.afterAll rs).Has family set sprite image ↔ s.Has family set sprite image := by
  induction rs generalizing s with
  | nil => rfl
  | cons r rs ih =>
    obtain ⟨hr, hrs⟩ := List.forall_mem_cons.1 h
    exact (ih hrs).trans (has_after_of_not_concerns hr)

theorem has_afterAll_of_mem (hapart : Apart rs) (hfit : r.Fit) (hr : r ∈ rs) :
    (s.afterAll rs).Has r.family r.set sprite image ↔ ⟨sprite, image⟩ ∈ r.entries := by
  induction rs generalizing s with
  | nil => exact absurd hr List.not_mem_nil
  | cons q rs ih =>
    obtain ⟨hq, hrest⟩ := List.pairwise_cons.1 hapart
    obtain rfl | hr := List.mem_cons.1 hr
    · exact (has_afterAll_of_not_concerns hq).trans (has_after_of_concerns hfit ⟨rfl, rfl⟩)
    · exact ih hrest hr

theorem hasTheme_after (hfit : r.Fit) {theme : String} : (s.after r).hasTheme theme = true ↔
    r.Concerns .theme theme ∨ s.hasTheme theme = true := by
  obtain ⟨built, hbuilt⟩ := exists_get?_after hfit
  change (((s.after r).sets .theme).get? theme).isSome = true ↔
    _ ∨ ((s.sets .theme).get? theme).isSome = true
  rw [hbuilt]
  split_ifs with hc
  · exact iff_of_true rfl (.inl hc)
  · exact (or_iff_right hc).symm

theorem hasTheme_afterAll (hfit : ∀ r ∈ rs, r.Fit) {theme : String} :
    (s.afterAll rs).hasTheme theme = true ↔
      (∃ r ∈ rs, r.Concerns .theme theme) ∨ s.hasTheme theme = true := by
  induction rs generalizing s with
  | nil => simp [afterAll]
  | cons r rs ih =>
    obtain ⟨hr, hrs⟩ := List.forall_mem_cons.1 hfit
    have hrest := ih (s := s.after r) hrs
    rw [hasTheme_after hr] at hrest
    simp only [List.mem_cons, exists_eq_or_imp, or_assoc, or_left_comm (a := r.Concerns _ _)]
    exact hrest

/-- **Fit registrations of different sets add those sets.** -/
theorem gains_afterAll (hapart : Apart rs) (hfit : ∀ r ∈ rs, r.Fit) (s : Sprites) :
    s.Gains rs (s.afterAll rs) where
  shows r hr sprite image := by
    rw [value_resolve_eq_some_iff, has_afterAll_of_mem hapart (hfit r hr) hr]
    exact and_iff_right (hfit r hr).set_ne
  others family set h sprite := by
    refine Option.ext fun image => ?_
    rw [value_resolve_eq_some_iff, value_resolve_eq_some_iff, has_afterAll_of_not_concerns h]
  themes _ := hasTheme_afterAll hfit

/-! ## One after the other, up to the first that is refused -/

/-- Registers sets of either family one after the other, up to the first that is refused. -/
def callAll (s : Sprites) : List Registration → Loading
  | [] => ⟨s, .ok (), []⟩
  | r :: rs =>
    let first := s.call r
    match first.result with
    | .error e => ⟨s, .error e, first.notes⟩
    | .ok t =>
      let more := callAll t rs
      { more with notes := first.notes ++ more.notes }

theorem callAll_cons_of_fit (h : r.Fit) : s.callAll (r :: rs) =
    { (s.after r).callAll rs with
      notes := (s.call r).notes ++ ((s.after r).callAll rs).notes } := by
  obtain ⟨t, ht⟩ := (exists_ok_call_iff (s := s)).2 h
  rw [callAll, after]
  simp only [ht]

/-- What is wrong with a set does not depend on the sprites that there are. -/
theorem result_call_eq_error_iff :
    (s.call r).result = .error e ↔ (buildSet r.set r.entries).result = .error e := by
  unfold call register
  cases h : (buildSet r.set r.entries).result <;> simp [h]

theorem exists_error_of_not_fit (h : ¬ r.Fit) :
    ∃ e, ∀ s : Sprites, (s.call r).result = .error e := by
  cases hr : (empty.call r).result with
  | ok t => exact absurd (exists_ok_call_iff.1 ⟨t, hr⟩) h
  | error e =>
    exact ⟨e, fun s => result_call_eq_error_iff.2 (result_call_eq_error_iff.1 hr)⟩

theorem callAll_of_fit (h : ∀ r ∈ rs, r.Fit) :
    (s.callAll rs).result = .ok () ∧ (s.callAll rs).sprites = s.afterAll rs := by
  induction rs generalizing s with
  | nil => exact ⟨rfl, rfl⟩
  | cons r rs ih =>
    obtain ⟨hr, hrs⟩ := List.forall_mem_cons.1 h
    rw [callAll_cons_of_fit hr]
    exact ih hrs

/-- Of some registrations, those before the first unfit one. -/
structure FirstUnfit (rs before : List Registration) (q : Registration) : Prop where
  fit : ∀ r ∈ before, r.Fit
  unfit : ¬ q.Fit
  split : ∃ rest, rs = before ++ q :: rest

theorem FirstUnfit.cons (h : FirstUnfit rs before q) (hr : r.Fit) :
    FirstUnfit (r :: rs) (r :: before) q := by
  obtain ⟨hfit, hunfit, rest, rfl⟩ := h
  exact ⟨List.forall_mem_cons.2 ⟨hr, hfit⟩, hunfit, rest, rfl⟩

theorem FirstUnfit.append (h : FirstUnfit rs before q) (hqs : ∀ r ∈ qs, r.Fit) :
    FirstUnfit (qs ++ rs) (qs ++ before) q := by
  induction qs with
  | nil => exact h
  | cons r qs ih =>
    obtain ⟨hr, hqs⟩ := List.forall_mem_cons.1 hqs
    exact (ih hqs).cons hr

theorem exists_firstUnfit (h : ¬ ∀ r ∈ rs, r.Fit) : ∃ before q, FirstUnfit rs before q := by
  induction rs with
  | nil => exact absurd (fun _ hr => absurd hr List.not_mem_nil) h
  | cons r rs ih =>
    by_cases hr : r.Fit
    · obtain ⟨before, q, hfirst⟩ := ih fun hrs => h (List.forall_mem_cons.2 ⟨hr, hrs⟩)
      exact ⟨r :: before, q, hfirst.cons hr⟩
    · exact ⟨[], r, fun _ hr => absurd hr List.not_mem_nil, hr, rs, rfl⟩

/-- **Registering ends at the first unfit set**, with what is wrong with it, and those before it
stay. -/
theorem callAll_of_firstUnfit (h : FirstUnfit rs before q)
    (he : ∀ s : Sprites, (s.call q).result = .error e) :
    (s.callAll rs).result = .error e ∧ (s.callAll rs).sprites = s.afterAll before := by
  obtain ⟨hfit, -, rest, rfl⟩ := h
  induction before generalizing s with
  | nil =>
    rw [List.nil_append, callAll]
    simp only [he s]
    exact ⟨trivial, rfl⟩
  | cons r before ih =>
    obtain ⟨hr, hbefore⟩ := List.forall_mem_cons.1 hfit
    rw [List.cons_append, callAll_cons_of_fit hr]
    exact ih hbefore

/-- A registration does not touch the notes of one of another set. -/
theorem notes_call_after (h : ¬ q.Concerns r.family r.set) :
    ((s.after q).call r).notes = (s.call r).notes := by
  have hcontains :
      ((s.after q).sets r.family).contains r.set = (s.sets r.family).contains r.set := by
    by_cases hq : q.Fit
    · obtain ⟨built, hbuilt⟩ := exists_get?_after hq
      exact congrArg Option.isSome ((hbuilt s _ _).trans (if_neg h))
    · rw [after_of_not_fit hq]
  unfold call register
  rw [hcontains]
  obtain ⟨result, notes⟩ := buildSet r.set r.entries
  cases result <;> rfl

/-- The notes of fit registrations of different sets are those of each of them. -/
theorem notes_callAll (hapart : Apart rs) (hfit : ∀ r ∈ rs, r.Fit) :
    (s.callAll rs).notes = rs.flatMap fun r => (s.call r).notes := by
  induction rs generalizing s with
  | nil => rfl
  | cons r rs ih =>
    obtain ⟨hr, hrs⟩ := List.forall_mem_cons.1 hfit
    obtain ⟨hother, hrest⟩ := List.pairwise_cons.1 hapart
    have hnotes : ∀ q ∈ rs, ((s.after r).call q).notes = (s.call q).notes :=
      fun q hq => notes_call_after (mt concerns_comm.2 (hother q hq))
    rw [callAll_cons_of_fit hr, List.flatMap_cons]
    exact congrArg _ ((ih hrest hrs).trans (List.flatMap_congr hnotes))

theorem callAll_append (s : Sprites) (rs qs : List Registration) : s.callAll (rs ++ qs) =
    let first := s.callAll rs
    match first.result with
    | .error e => ⟨first.sprites, .error e, first.notes⟩
    | .ok () =>
      let more := first.sprites.callAll qs
      { more with notes := first.notes ++ more.notes } := by
  induction rs generalizing s with
  | nil => rfl
  | cons r rs ih =>
    rw [List.cons_append, callAll, callAll]
    cases (s.call r).result with
    | error e => rfl
    | ok t =>
      dsimp only
      rw [ih]
      cases h : (t.callAll rs).result <;> simp [h, List.append_assoc]

end Sprites

end Colloquy
