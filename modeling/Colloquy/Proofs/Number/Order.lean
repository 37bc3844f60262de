import Colloquy.Proofs.Number.Nearest
import Colloquy.Value
import Mathlib.Order.WithBot

/-!
# Proofs/Number/Order — how values that are numbers compare

`Value.number?` says which number a value is, on the line of rationals with its two ends. Two whole
numbers compare as the numbers they are, and so do two decimals. A whole number beside a decimal is
first rounded to the 64-bit format, as if it were counted in the units of a decimal and rounded
there (`Value.Position`). Every decimal is left as it is by that, so the comparison agrees with the
numbers until rounding makes a whole number meet a decimal (`Value.Ordered`), and it is transitive
but for two whole numbers that meet the same decimal.
-/

namespace Colloquy

/-- The rational numbers with an end on either side. -/
abbrev Line := WithBot (WithTop ℚ)

/-- A rational number on the line. -/
def Line.of (q : ℚ) : Line := ((q : WithTop ℚ) : WithBot (WithTop ℚ))

theorem Line.of_lt_of {p q : ℚ} : Line.of p < Line.of q ↔ p < q := by
  rw [of, of, WithBot.coe_lt_coe, WithTop.coe_lt_coe]

theorem Line.bot_lt_of (q : ℚ) : ⊥ < Line.of q := WithBot.bot_lt_coe _

theorem Line.of_lt_top (q : ℚ) : Line.of q < ⊤ := WithBot.coe_lt_coe.2 (WithTop.coe_lt_top q)

/-- The number that a decimal is, if it is one. -/
def Single.number? : Single → Option Line
  | nan => none
  | infinite negative => some (if negative then ⊥ else ⊤)
  | finite negative units _ =>
    some (.of (signedUnits negative units / 2 ^ Format.single.scale))

/-- The number that a value is, if it is one. -/
def Value.number? : Value → Option Line
  | float x => x.number?
  | v => v.integer?.map fun n => .of n

/-! ## Places -/

/-- A count of units stands at a place of the line. The ends stand at the limits of the format. -/
inductive StandsAt : ℤ → Line → Prop
  | bottom : StandsAt (-Format.single.limit) ⊥
  | of {u : ℤ} (h : |u| < Format.single.limit) : StandsAt u (.of (u / 2 ^ Format.single.scale))
  | top : StandsAt Format.single.limit ⊤

namespace StandsAt

variable {u w : ℤ} {x y : Line}

theorem lt_iff (hu : StandsAt u x) (hw : StandsAt w y) : x < y ↔ u < w := by
  have hlimit : (0 : ℤ) < Format.single.limit := by decide +kernel
  cases hu with
  | bottom =>
    cases hw with
    | bottom => simp
    | of hw => exact iff_of_true (Line.bot_lt_of _) (abs_lt.1 hw).1
    | top => exact iff_of_true bot_lt_top (by omega)
  | of hu =>
    cases hw with
    | bottom => exact iff_of_false (Line.bot_lt_of _).not_gt (abs_lt.1 hu).1.not_gt
    | of hw =>
      rw [Line.of_lt_of, div_lt_div_iff_of_pos_right (by positivity), Int.cast_lt]
    | top => exact iff_of_true (Line.of_lt_top _) (abs_lt.1 hu).2
  | top =>
    cases hw with
    | bottom => exact iff_of_false bot_lt_top.not_gt (by omega)
    | of hw => exact iff_of_false (Line.of_lt_top _).not_gt (abs_lt.1 hw).2.not_gt
    | top => simp

theorem cmp_eq (hu : StandsAt u x) (hw : StandsAt w y) : cmp x y = compare u w := by
  rw [← cmp_eq_compare]
  simp only [cmp, cmpUsing, hu.lt_iff hw, hw.lt_iff hu]

/-- A whole number of 64 bits stands far from the limits. -/
theorem ofWhole {n : ℤ} (h : n.natAbs ≤ 2 ^ 63) :
    StandsAt (n * 2 ^ Format.single.scale) (.of n) := by
  have hlimit : (2 : ℤ) ^ 63 * 2 ^ Format.single.scale < Format.single.limit := by decide +kernel
  have hq : (n : ℚ) = (n * 2 ^ Format.single.scale : ℤ) / 2 ^ Format.single.scale := by
    rw [Int.cast_mul, Int.cast_pow, Int.cast_ofNat, mul_div_cancel_right₀ _ (by positivity)]
  rw [hq]
  refine .of ?_
  rw [abs_mul, abs_of_pos (by positivity : (0 : ℤ) < 2 ^ Format.single.scale)]
  refine lt_of_le_of_lt ?_ hlimit
  gcongr
  rw [Int.abs_eq_natAbs]
  exact_mod_cast h

end StandsAt

/-! ## Rounding -/

/-- A whole number rounded to the 64-bit format. -/
def nearestDouble (n : ℤ) : ℤ := Format.double.round n

theorem doubleRank_eq (n : ℤ) :
    Value.doubleRank n = nearestDouble n * 2 ^ Format.single.scale := by
  rw [Value.doubleRank, nearestDouble, Format.round, Nat.shiftLeft_eq]
  push_cast
  ring

/-- A number of the 32-bit format is left as it is by rounding to the 64-bit format. -/
theorem round_of_fits {u : ℤ} (h : Format.single.Fits u.natAbs) : Format.double.round u = u := by
  have hdigits : 1 <<< Format.single.precision ≤ 1 <<< Format.double.precision := by decide
  have hround := h.1
  rw [roundBits_eq] at hround
  exact Format.round_eq_self_of_eq_shiftLeft (by decide)
    ((roundHalfEven_le u.natAbs (by decide)).trans hdigits) hround.symm

/-- What a whole number is rounded to is a number of the 64-bit format, and none is nearer. -/
structure Nearest (n d : ℤ) : Prop where
  has : Format.double.Has d
  near : ∀ q, Format.double.Has q → Format.AsNear d n q

theorem nearest_nearestDouble {n : ℤ} (h : n.natAbs ≤ 2 ^ 63) : Nearest n (nearestDouble n) :=
  ⟨Format.has_round (by decide) h (by decide), fun _ hq => Format.nearest_round (by decide) n hq⟩

theorem natAbs_nearestDouble_le {n : ℤ} (h : n.natAbs ≤ 2 ^ 63) :
    (nearestDouble n).natAbs ≤ 2 ^ 63 := by
  have hlo := Format.round_mono (f := .double) (by decide) (by omega : -(2 ^ 63) ≤ n)
  have hhi := Format.round_mono (f := .double) (by decide) (by omega : n ≤ 2 ^ 63)
  rw [show Format.double.round (-(2 ^ 63)) = -(2 ^ 63) by decide +kernel] at hlo
  rw [show Format.double.round (2 ^ 63) = 2 ^ 63 by decide +kernel] at hhi
  rw [nearestDouble]
  omega

theorem has_of_natAbs_le {n : ℤ} (h : n.natAbs ≤ 2 ^ 53) : Format.double.Has n := by
  have hround : Format.double.round n = n :=
    Format.round_eq_self_of_eq_shiftLeft (s := 0) (by decide) h rfl
  have := Format.has_round (f := .double) (k := 53) (by decide) h (by decide)
  rwa [hround] at this

/-- The place of a number: where it stands, and where rounding puts it beside a decimal. -/
structure Value.Position (v : Value) (x : Line) (u : ℤ) : Prop where
  stands : StandsAt u x
  rank : v.rank? = some (Format.double.round u)
  whole : ∀ n, v.integer? = some n → u = n * 2 ^ Format.single.scale
  decimal : v.integer? = none → Format.double.round u = u

namespace Value

theorem position_float {s : Single} {x : Line} {u : ℤ} (hu : StandsAt u x)
    (hrank : s.rank? = some u) (hround : Format.double.round u = u) : (float s).Position x u where
  stands := hu
  rank := by rw [hround]; exact hrank
  whole _ h := nomatch h
  decimal _ := hround

theorem exists_position_float {s : Single} {x : Line} (h : s.number? = some x) :
    ∃ u, (float s).Position x u := by
  cases s with
  | nan => cases h
  | infinite negative =>
    cases h
    cases negative with
    | false => exact ⟨_, position_float .top rfl (by decide +kernel)⟩
    | true => exact ⟨_, position_float .bottom rfl (by decide +kernel)⟩
  | finite negative units fits =>
    cases h
    have habs : (Single.signedUnits negative units).natAbs = units := by
      cases negative <;> simp [Single.signedUnits]
    have hfits : Format.single.Fits (Single.signedUnits negative units).natAbs := habs.symm ▸ fits
    refine ⟨_, position_float (.of ?_) rfl (round_of_fits hfits)⟩
    rw [Int.abs_eq_natAbs]
    exact_mod_cast hfits.2

theorem natAbs_le_of_integer? {v : Value} {n : ℤ} (h : v.integer? = some n) :
    n.natAbs ≤ 2 ^ 63 := by
  cases v with
  | short n => cases h; have := n.le_toInt; have := n.toInt_lt; omega
  | int n => cases h; have := n.le_toInt; have := n.toInt_lt; omega
  | long n => cases h; have := n.le_toInt; have := n.toInt_lt; omega
  | _ => cases h

theorem position_of_integer? {v : Value} {x : Line} {n : ℤ} (hn : v.integer? = some n)
    (h : v.number? = some x) : v.Position x (n * 2 ^ Format.single.scale) where
  stands := by
    obtain rfl : Line.of n = x := by
      cases v <;> simp_all [number?, integer?]
    exact .ofWhole (natAbs_le_of_integer? hn)
  rank := by
    have hrank : v.rank? = some (doubleRank n) := by
      cases v <;> simp_all [rank?, integer?]
    rw [hrank, doubleRank_eq, Format.round_mul_two_pow (by decide), nearestDouble]
  whole m hm := by rw [Option.some.inj (hm.symm.trans hn)]
  decimal hnone := nomatch hnone.symm.trans hn

/-- Every number has a place. -/
theorem exists_position {v : Value} {x : Line} (h : v.number? = some x) :
    ∃ u, v.Position x u := by
  cases hn : v.integer? with
  | some n => exact ⟨_, position_of_integer? hn h⟩
  | none =>
    cases v with
    | float s => exact exists_position_float h
    | bool b => cases h
    | string s => cases h
    | _ => cases hn

/-! ## Comparing -/

section Compare

variable {a b c : Value} {x y z : Line} {u w t : ℤ}

/-- Two whole numbers compare as they stand. -/
theorem Position.compare_whole (ha : a.Position x u) (hb : b.Position y w)
    (hwhole : a.integer?.isSome ∧ b.integer?.isSome) : a.compare b = some (Ord.compare u w) := by
  obtain ⟨m, hm⟩ := Option.isSome_iff_exists.1 hwhole.1
  obtain ⟨n, hn⟩ := Option.isSome_iff_exists.1 hwhole.2
  have hcompare : a.compare b = some (Ord.compare m n) := by
    cases a <;> cases b <;> simp_all [compare, integer?]
  have hpow : (0 : ℤ) < 2 ^ Format.single.scale := by positivity
  rw [hcompare, ha.whole m hm, hb.whole n hn]
  simp only [← cmp_eq_compare, cmp, cmpUsing, Int.mul_lt_mul_right hpow]

/-- Numbers compare as rounding puts them, unless both are whole. -/
theorem Position.compare_round (ha : a.Position x u) (hb : b.Position y w)
    (hwhole : ¬ (a.integer?.isSome ∧ b.integer?.isSome)) :
    a.compare b = some (Ord.compare (Format.double.round u) (Format.double.round w)) := by
  have harank := ha.rank
  have hbrank := hb.rank
  cases a <;> cases b <;> simp_all [compare, integer?, rank?]

/-- A number that is less, as values compare, lies below. -/
theorem Position.lt (ha : a.Position x u) (hb : b.Position y w) (h : a.compare b = some .lt) :
    u < w := by
  by_cases hwhole : a.integer?.isSome ∧ b.integer?.isSome
  · rw [ha.compare_whole hb hwhole] at h
    exact compare_lt_iff_lt.1 (Option.some.inj h)
  · rw [ha.compare_round hb hwhole] at h
    by_contra hle
    exact (compare_lt_iff_lt.1 (Option.some.inj h)).not_ge
      (Format.round_mono (by decide) (not_lt.1 hle))

theorem Position.round_eq (ha : a.Position x u) (hb : b.Position y w)
    (h : a.compare b = some .eq) : Format.double.round u = Format.double.round w := by
  by_cases hwhole : a.integer?.isSome ∧ b.integer?.isSome
  · rw [ha.compare_whole hb hwhole] at h
    rw [compare_eq_iff_eq.1 (Option.some.inj h)]
  · rw [ha.compare_round hb hwhole] at h
    exact compare_eq_iff_eq.1 (Option.some.inj h)

/-- Where rounding changes neither side, values compare as the numbers they are. -/
theorem Position.compare_exact (ha : a.Position x u) (hb : b.Position y w)
    (hu : Format.double.round u = u) (hw : Format.double.round w = w) :
    a.compare b = some (cmp x y) := by
  rw [ha.stands.cmp_eq hb.stands]
  by_cases hwhole : a.integer?.isSome ∧ b.integer?.isSome
  · exact ha.compare_whole hb hwhole
  · rw [ha.compare_round hb hwhole, hu, hw]

theorem Position.compare_swap (ha : a.Position x u) (hb : b.Position y w) :
    b.compare a = (a.compare b).map Ordering.swap := by
  by_cases hwhole : a.integer?.isSome ∧ b.integer?.isSome
  · rw [ha.compare_whole hb hwhole, hb.compare_whole ha hwhole.symm, Option.map_some,
      ← cmp_eq_compare, ← cmp_eq_compare, cmp_swap]
  · rw [ha.compare_round hb hwhole, hb.compare_round ha (mt And.symm hwhole), Option.map_some,
      ← cmp_eq_compare, ← cmp_eq_compare, cmp_swap]

/-- Rounding puts the place of a whole number where the nearest number of the 64-bit format
stands. -/
theorem Position.stands_round (ha : a.Position x u) {n : ℤ} (hn : a.integer? = some n) :
    StandsAt (Format.double.round u) (.of (nearestDouble n)) := by
  rw [ha.whole n hn, Format.round_mul_two_pow (by decide)]
  exact .ofWhole (natAbs_nearestDouble_le (natAbs_le_of_integer? hn))

/-- What comparing two numbers says about them. -/
structure Ordered (a b : Value) (x y : Line) : Prop where
  defined : (a.compare b).isSome
  swap : b.compare a = (a.compare b).map Ordering.swap
  /-- Two whole numbers, or two decimals, compare as the numbers they are. -/
  alike : (a.integer?.isSome ↔ b.integer?.isSome) → a.compare b = some (cmp x y)
  /-- A whole number beside a decimal compares as its nearest number of the 64-bit format. -/
  whole : ∀ n, a.integer? = some n → b.integer? = none →
    a.compare b = some (cmp (.of (nearestDouble n)) y)
  nearest : ∀ n, a.integer? = some n → Nearest n (nearestDouble n)
  /-- Rounding makes no difference to a number that the 64-bit format has. -/
  double : ∀ n, a.integer? = some n → Format.double.Has n → a.compare b = some (cmp x y)
  small : ∀ n, a.integer? = some n → n.natAbs ≤ 2 ^ 53 → a.compare b = some (cmp x y)
  /-- Values are never the other way round than the numbers. -/
  lt : a.compare b = some .lt → x < y

theorem Position.compare_double (ha : a.Position x u) (hb : b.Position y w) {n : ℤ}
    (hn : a.integer? = some n) (h : Format.double.Has n) : a.compare b = some (cmp x y) := by
  cases hb' : b.integer? with
  | some m =>
    rw [ha.compare_whole hb (by simp [hn, hb']), ha.stands.cmp_eq hb.stands]
  | none =>
    refine ha.compare_exact hb ?_ (hb.decimal hb')
    rw [ha.whole n hn, Format.round_mul_two_pow (by decide), Format.round_of_has (by decide) h]

theorem Position.ordered (ha : a.Position x u) (hb : b.Position y w) : a.Ordered b x y where
  defined := by
    by_cases hwhole : a.integer?.isSome ∧ b.integer?.isSome
    · rw [ha.compare_whole hb hwhole, Option.isSome_some]
    · rw [ha.compare_round hb hwhole, Option.isSome_some]
  swap := ha.compare_swap hb
  alike h := by
    by_cases ha' : a.integer?.isSome
    · rw [ha.compare_whole hb ⟨ha', h.1 ha'⟩, ha.stands.cmp_eq hb.stands]
    · have hb' := mt h.2 ha'
      exact ha.compare_exact hb (ha.decimal (by simpa using ha')) (hb.decimal (by simpa using hb'))
  whole n hn hb' := by
    rw [ha.compare_round hb (by simp [hb']), hb.decimal hb', (ha.stands_round hn).cmp_eq hb.stands]
  nearest n hn := nearest_nearestDouble (natAbs_le_of_integer? hn)
  double n hn h := ha.compare_double hb hn h
  small n hn h := ha.compare_double hb hn (has_of_natAbs_le h)
  lt h := (ha.stands.lt_iff hb.stands).2 (ha.lt hb h)

/-- Being less passes on: where the outer two do not compare as they stand, neither do the inner
ones on one side or the other. -/
theorem Position.lt_trans (ha : a.Position x u) (hb : b.Position y w) (hc : c.Position z t)
    (hab : a.compare b = some .lt) (hbc : b.compare c = some .lt) : a.compare c = some .lt := by
  have huw := ha.lt hb hab
  have hwt := hb.lt hc hbc
  by_cases hwhole : a.integer?.isSome ∧ c.integer?.isSome
  · rw [ha.compare_whole hc hwhole, compare_lt_iff_lt.2 (huw.trans hwt)]
  · rw [ha.compare_round hc hwhole, compare_lt_iff_lt.2]
    rcases not_and_or.1 hwhole with ha' | hc'
    · rw [ha.compare_round hb (mt And.left ha')] at hab
      exact (compare_lt_iff_lt.1 (Option.some.inj hab)).trans_le
        (Format.round_mono (by decide) hwt.le)
    · rw [hb.compare_round hc (mt And.right hc')] at hbc
      exact (Format.round_mono (by decide) huw.le).trans_lt
        (compare_lt_iff_lt.1 (Option.some.inj hbc))

/-- Being equal passes on, but not from a whole number to another over a decimal. -/
theorem Position.eq_trans (ha : a.Position x u) (hb : b.Position y w) (hc : c.Position z t)
    (hab : a.compare b = some .eq) (hbc : b.compare c = some .eq) :
    a.compare c = some .eq ∨ ∃ m n, a.integer? = some m ∧ c.integer? = some n ∧
      b.integer? = none ∧ nearestDouble m = nearestDouble n := by
  have hround := (ha.round_eq hb hab).trans (hb.round_eq hc hbc)
  by_cases hwhole : a.integer?.isSome ∧ c.integer?.isSome
  · obtain ⟨m, hm⟩ := Option.isSome_iff_exists.1 hwhole.1
    obtain ⟨n, hn⟩ := Option.isSome_iff_exists.1 hwhole.2
    cases hb' : b.integer? with
    | none =>
      refine .inr ⟨m, n, hm, hn, rfl, ?_⟩
      rw [ha.whole m hm, hc.whole n hn, Format.round_mul_two_pow (by decide),
        Format.round_mul_two_pow (by decide)] at hround
      exact mul_right_cancel₀ (by positivity) hround
    | some k =>
      left
      rw [ha.compare_whole hb (by simp [hm, hb'])] at hab
      rw [hb.compare_whole hc (by simp [hn, hb'])] at hbc
      rw [ha.compare_whole hc hwhole, compare_eq_iff_eq.1 (Option.some.inj hab)]
      exact hbc
  · left
    rw [ha.compare_round hc hwhole, compare_eq_iff_eq.2 hround]

end Compare

/-- **Numbers compare as themselves, but for a whole number beside a decimal, which compares as the
nearest number of the 64-bit format.** Being less is transitive, and so is being equal unless two
whole numbers of one such nearest number are equal to the same decimal. -/
theorem compare_numbers {a b c : Value} {x y z : Line} (ha : a.number? = some x)
    (hb : b.number? = some y) (hc : c.number? = some z) :
    a.Ordered b x y ∧
      (a.compare b = some .lt → b.compare c = some .lt → a.compare c = some .lt) ∧
      (a.compare b = some .eq → b.compare c = some .eq →
        a.compare c = some .eq ∨ ∃ m n, a.integer? = some m ∧ c.integer? = some n ∧
          b.integer? = none ∧ nearestDouble m = nearestDouble n) := by
  obtain ⟨u, ha⟩ := exists_position ha
  obtain ⟨w, hb⟩ := exists_position hb
  obtain ⟨t, hc⟩ := exists_position hc
  exact ⟨ha.ordered hb, ha.lt_trans hb hc, ha.eq_trans hb hc⟩

theorem compare_numbers_near_two_pow_53 :
    (long 9007199254740991).number? = some (.of 9007199254740991) ∧
      (float (.ofRatio false 9007199254740992 1)).number? = some (.of 9007199254740992) ∧
      (long 9007199254740995).number? = some (.of 9007199254740995) ∧
      (long 9007199254740991).Ordered (float (.ofRatio false 9007199254740992 1))
        (.of 9007199254740991) (.of 9007199254740992) ∧
      (long 9007199254740991).compare (long 9007199254740995) = some .lt := by
  have ha : (long 9007199254740991).number? = some (.of 9007199254740991) := by decide +kernel
  have hb : (float (.ofRatio false 9007199254740992 1)).number? =
      some (.of 9007199254740992) := by decide +kernel
  have hc : (long 9007199254740995).number? = some (.of 9007199254740995) := by decide +kernel
  obtain ⟨hordered, hless, -⟩ := compare_numbers ha hb hc
  exact ⟨ha, hb, hc, hordered, hless (by decide +kernel) (by decide +kernel)⟩

/-- Two whole numbers are equal to one decimal and not to each other. -/
theorem compare_eq_not_trans :
    (long 9007199254740993).number? = some (.of 9007199254740993) ∧
      (float (.ofRatio false 9007199254740992 1)).number? = some (.of 9007199254740992) ∧
      (long 9007199254740992).number? = some (.of 9007199254740992) ∧
      (long 9007199254740993).compare (float (.ofRatio false 9007199254740992 1)) = some .eq ∧
      (float (.ofRatio false 9007199254740992 1)).compare (long 9007199254740992) = some .eq ∧
      (long 9007199254740993).compare (long 9007199254740992) = some .gt := by
  decide +kernel

end Value

end Colloquy
