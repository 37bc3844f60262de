import Colloquy.Sprites
import Mathlib.Data.List.Basic
import Mathlib.Data.List.Induction

/-!
# Proofs/Sprites — what is found of the sets that were registered

A set is registered exactly if it is `Fit`: it has a name, each of its entries has a name and an
image, and no two of them share a name. It then takes the place of the set of its name and family,
all of it, and no other set changes; a set that is refused changes nothing (`Sprites.Answers`). So
after any registrations a sprite is found exactly if the last fit registration of its set has it
(`Sprites.answers_and_found_afterAll`).
-/

namespace Colloquy

/-- An entry with a name and an image. -/
def SpriteEntry.Filled (e : SpriteEntry) : Prop := ¬ Text.IsBlank e.name ∧ ¬ Text.IsBlank e.image

instance (e : SpriteEntry) : Decidable e.Filled := inferInstanceAs (Decidable (_ ∧ _))

namespace Sprites

/-! ## Collecting entries -/

section Collecting

variable {set : String} {taken built : SpriteSet} {e : SpriteEntry} {es : List SpriteEntry}

/-- An entry is taken if it is filled and its name is new, and the others are collected after it. -/
theorem collect_cons_eq_ok_iff :
    collect set taken (e :: es) = .ok built ↔
      e.Filled ∧ taken.get? e.name = none ∧
        collect set (taken.insert e.name e.image) es = .ok built := by
  rw [collect, SpriteEntry.Filled]
  split_ifs with hname himage htaken
  · simp [hname]
  · simp [himage]
  · have hsome : taken.get? e.name ≠ none := Option.isSome_iff_ne_none.1 htaken
    simp [hsome]
  · have hnone : taken.get? e.name = none := Option.not_isSome_iff_eq_none.1 htaken
    simp [hname, himage, hnone]

/-- A name is new beside one entry more if it was new before and is not the name of that entry. -/
theorem get?_insert_eq_none_iff {name other image : String} :
    (taken.insert name image).get? other = none ↔ name ≠ other ∧ taken.get? other = none := by
  rw [Registry.get?_insert]
  by_cases h : name = other <;> simp [h]

/-- **Entries are collected exactly if they are filled** and their names are new and distinct. -/
theorem exists_collect_iff : (∃ built, collect set taken es = .ok built) ↔
    (∀ e ∈ es, e.Filled) ∧ (es.map (·.name)).Nodup ∧ ∀ e ∈ es, taken.get? e.name = none := by
  induction es generalizing taken with
  | nil => simp [collect]
  | cons e es ih =>
    simp only [collect_cons_eq_ok_iff, exists_and_left, ih, get?_insert_eq_none_iff,
      List.forall_mem_cons, List.map_cons, List.nodup_cons, List.mem_map, not_exists, not_and]
    constructor
    · rintro ⟨hfilled, hnew, hall, hdistinct, hfresh⟩
      exact ⟨⟨hfilled, hall⟩, ⟨fun f hf heq => (hfresh f hf).1 heq.symm, hdistinct⟩, hnew,
        fun f hf => (hfresh f hf).2⟩
    · rintro ⟨⟨hfilled, hall⟩, ⟨hother, hdistinct⟩, hnew, hfresh⟩
      exact ⟨hfilled, hnew, hall, hdistinct,
        fun f hf => ⟨fun heq => hother f hf heq.symm, hfresh f hf⟩⟩

/-- What is collected are the entries, beside what was taken before. -/
theorem get?_of_collect (h : collect set taken es = .ok built) {name image : String} :
    built.get? name = some image ↔ taken.get? name = some image ∨ ⟨name, image⟩ ∈ es := by
  induction es generalizing taken with
  | nil =>
    cases h
    simp
  | cons e es ih =>
    obtain ⟨-, hnew, hrest⟩ := collect_cons_eq_ok_iff.1 h
    rw [ih hrest, Registry.get?_insert, List.mem_cons, ← or_assoc]
    refine or_congr_left ?_
    by_cases heq : e.name = name
    · subst heq
      rw [if_pos rfl, hnew]
      exact ⟨fun h => .inr (Option.some.inj h ▸ rfl), fun h => (h.resolve_left nofun) ▸ rfl⟩
    · have hne : (⟨name, image⟩ : SpriteEntry) ≠ e := fun h => heq (h ▸ rfl)
      simp [heq, hne]

end Collecting

/-! ## One registration -/

/-- A set to be registered. -/
structure Registration where
  family : SpriteFamily
  set : String
  entries : List SpriteEntry

/-- A set that may be registered. -/
structure Registration.Fit (r : Registration) : Prop where
  named : ¬ Text.IsBlank r.set
  filled : ∀ e ∈ r.entries, e.Filled
  distinct : (r.entries.map (·.name)).Nodup

instance (r : Registration) : Decidable r.Fit :=
  decidable_of_iff
    (¬ Text.IsBlank r.set ∧ (∀ e ∈ r.entries, e.Filled) ∧ (r.entries.map (·.name)).Nodup)
    ⟨fun ⟨hnamed, hfilled, hdistinct⟩ => ⟨hnamed, hfilled, hdistinct⟩,
      fun h => ⟨h.named, h.filled, h.distinct⟩⟩

/-- A set is the one that a registration is about. -/
def Registration.Concerns (r : Registration) (family : SpriteFamily) (set : String) : Prop :=
  r.family = family ∧ r.set = set

instance (r : Registration) (family : SpriteFamily) (set : String) :
    Decidable (r.Concerns family set) :=
  inferInstanceAs (Decidable (_ ∧ _))

/-- The answer to a registration. -/
def call (s : Sprites) (r : Registration) : Audit SpriteError Sprites :=
  s.register r.family r.set r.entries

/-- The sprites after a registration. They are left alone by one that fails. -/
def after (s : Sprites) (r : Registration) : Sprites :=
  match (s.call r).result with
  | .ok t => t
  | .error _ => s

/-- The sprites after registrations. -/
def afterAll (s : Sprites) (rs : List Registration) : Sprites := rs.foldl after s

/-- A sprite of a set has an image. -/
def Has (s : Sprites) (family : SpriteFamily) (set sprite image : String) : Prop :=
  ∃ sprites, (s.sets family).get? set = some sprites ∧ sprites.get? sprite = some image

variable {s t : Sprites} {r : Registration} {family : SpriteFamily} {set sprite image : String}

theorem sets_withSets (other : SpriteFamily) (sets : Registry SpriteSet) :
    (s.withSets family sets).sets other = if other = family then sets else s.sets other := by
  cases family <;> cases other <;> rfl

theorem result_buildSet_eq_ok_iff {entries : List SpriteEntry} {built : SpriteSet} :
    (buildSet set entries).result = .ok built ↔
      ¬ Text.IsBlank set ∧ collect set .empty entries = .ok built := by
  rw [buildSet, Audit.result_seq_eq_ok_iff, Audit.result_require_eq_ok_iff,
    Audit.result_seq_eq_ok_iff]
  simp

/-- A registration puts the set that its entries make under its name, in its family. -/
theorem result_call_eq_ok_iff : (s.call r).result = .ok t ↔
    ∃ built, (buildSet r.set r.entries).result = .ok built ∧
      t = s.withSets r.family ((s.sets r.family).insert r.set built) := by
  unfold call register
  cases h : (buildSet r.set r.entries).result with
  | error e => simp only [h, reduceCtorEq, false_and, exists_false]
  | ok built => simp only [h, Except.ok.injEq, exists_eq_left', eq_comm]

/-- A registration succeeds exactly if its set is fit. -/
theorem exists_ok_call_iff : (∃ t, (s.call r).result = .ok t) ↔ r.Fit := by
  simp only [result_call_eq_ok_iff, result_buildSet_eq_ok_iff]
  constructor
  · rintro ⟨t, built, ⟨hname, hbuilt⟩, -⟩
    obtain ⟨hfilled, hdistinct, -⟩ := exists_collect_iff.1 ⟨built, hbuilt⟩
    exact ⟨hname, hfilled, hdistinct⟩
  · rintro ⟨hname, hfilled, hdistinct⟩
    obtain ⟨built, hbuilt⟩ := exists_collect_iff.2
      ⟨hfilled, hdistinct, fun e _ => Registry.get?_empty e.name⟩
    exact ⟨_, built, ⟨hname, hbuilt⟩, rfl⟩

theorem after_of_not_fit (h : ¬ r.Fit) : s.after r = s := by
  cases hr : (s.call r).result with
  | ok t => exact absurd (exists_ok_call_iff.1 ⟨t, hr⟩) h
  | error e => rw [after, hr]

theorem exists_after_of_fit (h : r.Fit) : ∃ built, collect r.set .empty r.entries = .ok built ∧
    s.after r = s.withSets r.family ((s.sets r.family).insert r.set built) := by
  obtain ⟨t, ht⟩ := (exists_ok_call_iff (s := s)).2 h
  obtain ⟨built, hbuilt, rfl⟩ := result_call_eq_ok_iff.1 ht
  exact ⟨built, (result_buildSet_eq_ok_iff.1 hbuilt).2, by rw [after, ht]⟩

/-- A fit registration replaces its set, all of it. -/
theorem has_after_of_concerns (h : r.Fit) (hc : r.Concerns family set) :
    (s.after r).Has family set sprite image ↔ ⟨sprite, image⟩ ∈ r.entries := by
  obtain ⟨rfl, rfl⟩ := hc
  obtain ⟨built, hbuilt, hafter⟩ := exists_after_of_fit (s := s) h
  rw [Has, hafter, sets_withSets, if_pos rfl, Registry.get?_insert, if_pos rfl]
  simp only [Option.some.injEq, exists_eq_left', get?_of_collect hbuilt, Registry.get?_empty,
    reduceCtorEq, false_or]

/-- A registration leaves every other set alone. -/
theorem has_after_of_not_concerns (hc : ¬ r.Concerns family set) :
    (s.after r).Has family set sprite image ↔ s.Has family set sprite image := by
  by_cases h : r.Fit
  · obtain ⟨built, -, hafter⟩ := exists_after_of_fit (s := s) h
    rw [Has, Has, hafter, sets_withSets]
    split_ifs with hf
    · have hset : r.set ≠ set := fun heq => hc ⟨hf.symm, heq⟩
      rw [Registry.get?_insert, if_neg hset, hf]
    · rfl
  · rw [after_of_not_fit h]

/-- A sprite is found if its set is named and it has an image there. -/
theorem value_resolve_eq_some_iff :
    (s.resolve family set sprite).value = some image ↔
      set ≠ "" ∧ s.Has family set sprite image := by
  unfold resolve Has
  split_ifs with hset
  · simp [hset]
  · cases hsprites : (s.sets family).get? set with
    | none => simp
    | some sprites =>
      cases himage : sprites.get? sprite <;> simp [himage, hset]

/-- What a registration does: if its set is fit that set is found from then on as its entries say,
and otherwise nothing changes. Nothing else changes either way. -/
structure Answers (s : Sprites) (r : Registration) : Prop where
  accepts : (∃ t, (s.call r).result = .ok t) ↔ r.Fit
  failed : ∀ e, (s.call r).result = .error e → s.after r = s
  replaced : ∀ t, (s.call r).result = .ok t → ∀ sprite image,
    ((s.after r).resolve r.family r.set sprite).value = some image ↔ ⟨sprite, image⟩ ∈ r.entries
  others : ∀ family set, ¬ r.Concerns family set → ∀ sprite,
    ((s.after r).resolve family set sprite).value = (s.resolve family set sprite).value

theorem answers (s : Sprites) (r : Registration) : s.Answers r where
  accepts := exists_ok_call_iff
  failed e h := by rw [after, h]
  replaced t h sprite image := by
    have hfit : r.Fit := exists_ok_call_iff.1 ⟨t, h⟩
    have hset : r.set ≠ "" := fun heq => hfit.named (heq ▸ Text.isBlank_empty)
    rw [value_resolve_eq_some_iff, has_after_of_concerns hfit ⟨rfl, rfl⟩]
    exact and_iff_right hset
  others family set hc sprite := by
    refine Option.ext fun image => ?_
    rw [value_resolve_eq_some_iff, value_resolve_eq_some_iff, has_after_of_not_concerns hc]

/-! ## Any registrations -/

/-- Of some registrations, the last fit one of a set. -/
structure LastFit (rs : List Registration) (family : SpriteFamily) (set : String)
    (r : Registration) : Prop where
  fit : r.Fit
  concerns : r.Concerns family set
  last : ∃ earlier later, rs = earlier ++ r :: later ∧
    ∀ q ∈ later, q.Fit → ¬ q.Concerns family set

variable {rs : List Registration} {q : Registration}

/-- Where one registration stands among those up to a last one. -/
theorem concat_eq_append_cons {earlier later : List Registration}
    (h : rs ++ [q] = earlier ++ r :: later) :
    later = [] ∧ q = r ∨ ∃ rest, later = rest ++ [q] ∧ rs = earlier ++ r :: rest := by
  obtain rfl | ⟨rest, q', rfl⟩ := List.eq_nil_or_concat' later
  · exact .inl ⟨rfl, List.singleton_inj.1 (List.append_inj_right' h rfl)⟩
  · rw [← List.cons_append, ← List.append_assoc] at h
    obtain rfl : q = q' := List.singleton_inj.1 (List.append_inj_right' h rfl)
    exact .inr ⟨rest, rfl, List.append_inj_left' h rfl⟩

theorem lastFit_concat_self (hfit : q.Fit) (hc : q.Concerns family set) :
    LastFit (rs ++ [q]) family set r ↔ r = q := by
  constructor
  · rintro ⟨-, -, earlier, later, heq, hlater⟩
    obtain ⟨-, rfl⟩ | ⟨rest, rfl, -⟩ := concat_eq_append_cons heq
    · rfl
    · exact absurd hc (hlater q (List.mem_append_right rest (List.mem_singleton_self q)) hfit)
  · rintro rfl
    exact ⟨hfit, hc, rs, [], rfl, fun _ h => absurd h List.not_mem_nil⟩

theorem lastFit_concat_of_not (h : ¬ (q.Fit ∧ q.Concerns family set)) :
    LastFit (rs ++ [q]) family set r ↔ LastFit rs family set r := by
  constructor
  · rintro ⟨hfit, hc, earlier, later, heq, hlater⟩
    obtain ⟨-, rfl⟩ | ⟨rest, rfl, rfl⟩ := concat_eq_append_cons heq
    · exact absurd ⟨hfit, hc⟩ h
    · exact ⟨hfit, hc, earlier, rest, rfl, fun p hp => hlater p (List.mem_append_left _ hp)⟩
  · rintro ⟨hfit, hc, earlier, later, rfl, hlater⟩
    refine ⟨hfit, hc, earlier, later ++ [q], List.append_assoc .., fun p hp hpfit hpc => ?_⟩
    obtain hp | hp := List.mem_append.1 hp
    · exact hlater p hp hpfit hpc
    · exact h (List.mem_singleton.1 hp ▸ ⟨hpfit, hpc⟩)

theorem afterAll_concat (s : Sprites) (rs : List Registration) (q : Registration) :
    s.afterAll (rs ++ [q]) = (s.afterAll rs).after q := List.foldl_append

/-- After any registrations a set has what the last fit one of it says. -/
theorem has_afterAll : (empty.afterAll rs).Has family set sprite image ↔
    ∃ r, LastFit rs family set r ∧ ⟨sprite, image⟩ ∈ r.entries := by
  induction rs using List.reverseRecOn with
  | nil =>
    refine iff_of_false ?_ ?_
    · rintro ⟨sprites, hsprites, -⟩
      cases family <;> cases hsprites
    · rintro ⟨r, ⟨-, -, earlier, later, heq, -⟩, -⟩
      exact List.append_ne_nil_of_right_ne_nil _ (List.cons_ne_nil r later) heq.symm
  | append_singleton rs q ih =>
    rw [afterAll_concat]
    by_cases h : q.Fit ∧ q.Concerns family set
    · obtain ⟨hfit, hc⟩ := h
      simp only [has_after_of_concerns hfit hc, lastFit_concat_self hfit hc, exists_eq_left]
    · simp only [lastFit_concat_of_not h, ← ih]
      by_cases hc : q.Concerns family set
      · rw [after_of_not_fit fun hfit => h ⟨hfit, hc⟩]
      · exact has_after_of_not_concerns hc

/-- **Whatever sets were registered, a sprite is found if the last fit registration of its set has
it**, and only then. One more registration succeeds exactly if its set is fit, and it changes that
set only, if any. -/
theorem answers_and_found_afterAll (rs : List Registration) :
    let s := empty.afterAll rs
    (∀ r, s.Answers r) ∧
      ∀ family set sprite image, (s.resolve family set sprite).value = some image ↔
        set ≠ "" ∧ ∃ r, LastFit rs family set r ∧ ⟨sprite, image⟩ ∈ r.entries := by
  intro s
  refine ⟨s.answers, fun family set sprite image => ?_⟩
  rw [value_resolve_eq_some_iff, has_afterAll]

end Sprites

end Colloquy
