import Colloquy.Number.Single
import Colloquy.Proofs.Number.Nearest

/-!
# Proofs/Number/Sum — where a sum of numbers stands

A sum of finite numbers stands where the sum of their counts of units is rounded to
(`Single.rank?_add_finite`), and rounding keeps order. So whoever takes nothing positive away is
left with no less (`Single.exists_rank?_le_of_sub`), unless what is left is no number; and to take
zero away changes nothing at all (`Single.sub_zero`).
-/

namespace Colloquy

namespace Single

theorem signedUnits_true (units : Nat) : signedUnits true units = -(units : ℤ) := rfl

theorem signedUnits_false (units : Nat) : signedUnits false units = units := rfl

/-- The place of the number nearest to a whole count of units: what is too large is infinite. -/
def saturate (n : ℤ) : ℤ :=
  max (-Format.single.limit) (min Format.single.limit (Format.single.round n))

theorem saturate_mono {m n : ℤ} (h : m ≤ n) : saturate m ≤ saturate n :=
  max_le_max_left _ (min_le_min_left _ (Format.round_mono (by decide) h))

theorem natAbs_signedUnits (negative : Bool) (units : Nat) :
    (signedUnits negative units).natAbs = units := by
  cases negative <;> simp [signedUnits]

theorem round_signedUnits (negative : Bool) (units : Nat) :
    Format.single.round (signedUnits negative units) =
      signedUnits negative (roundBits Format.single.precision units 1) := by
  cases negative with
  | false => exact Format.round_natCast units
  | true => exact (Format.round_neg units).trans (congrArg Neg.neg (Format.round_natCast units))

theorem signedUnits_bounds (negative : Bool) {units : Nat} (h : units < Format.single.limit) :
    -(Format.single.limit : ℤ) < signedUnits negative units ∧
      signedUnits negative units < Format.single.limit := by
  cases negative with
  | false => rw [signedUnits_false]; omega
  | true => rw [signedUnits_true]; omega

/-- A number of the format stands where it is counted. -/
theorem saturate_signedUnits (negative : Bool) {units : Nat} (fits : Format.single.Fits units) :
    saturate (signedUnits negative units) = signedUnits negative units := by
  obtain ⟨hlo, hhi⟩ := signedUnits_bounds negative fits.2
  rw [saturate, round_signedUnits, fits.1, min_eq_right hhi.le, max_eq_right hlo.le]

theorem rank?_nearest (negative : Bool) (units : Nat) :
    (nearest negative units 1).rank? = some (saturate (signedUnits negative units)) := by
  unfold nearest saturate
  rw [round_signedUnits]
  split
  case isTrue h =>
    obtain ⟨hlo, hhi⟩ := signedUnits_bounds negative h
    rw [min_eq_right hhi.le, max_eq_right hlo.le]
    rfl
  case isFalse h =>
    cases negative with
    | false =>
      rw [signedUnits_false, min_eq_left (by omega), max_eq_right (by omega)]
      rfl
    | true =>
      rw [signedUnits_true, min_eq_right (by omega), max_eq_left (by omega)]
      rfl

/-- **A sum stands where the sum of the counts is rounded to.** -/
theorem rank?_add_finite {a b : Bool} {m n : Nat} (hm : Format.single.Fits m)
    (hn : Format.single.Fits n) :
    (finite a m hm + finite b n hn).rank? =
      some (saturate (signedUnits a m + signedUnits b n)) := by
  change (add _ _).rank? = _
  unfold add
  dsimp only
  generalize signedUnits a m + signedUnits b n = total
  split
  case isTrue h =>
    subst h
    have hzero : saturate 0 = 0 := by decide +kernel
    rw [hzero]
    cases (a && b) <;> rfl
  case isFalse h =>
    rw [rank?_nearest]
    congr 2
    rcases lt_or_gt_of_ne h with hneg | hpos
    · rw [decide_eq_true hneg, signedUnits_true]
      omega
    · rw [decide_eq_false (by omega), signedUnits_false]
      omega

theorem nearest_of_fits (negative : Bool) {units : Nat} (fits : Format.single.Fits units) :
    nearest negative units 1 = finite negative units fits := by
  unfold nearest
  rw [dif_pos (by rw [fits.1]; exact fits.2)]
  congr 1
  exact fits.1

/-- Taking zero away changes nothing, not even the sign of a zero. -/
theorem sub_zero (x : Single) : x - 0 = x := by
  cases x with
  | nan => rfl
  | infinite negative => rfl
  | finite negative units fits =>
    change add _ (finite true 0 _) = _
    unfold add
    have htotal : signedUnits negative units + signedUnits true 0 = signedUnits negative units :=
      Int.add_zero _
    dsimp only
    rw [htotal, natAbs_signedUnits, nearest_of_fits _ fits]
    split
    case isTrue h =>
      obtain rfl : units = 0 := by rw [← natAbs_signedUnits negative units, h]; rfl
      rw [Bool.and_true]
      rfl
    case isFalse h =>
      congr 1
      cases negative with
      | false => rw [signedUnits_false, decide_eq_false (by omega)]
      | true =>
        rw [signedUnits_true] at h ⊢
        rw [decide_eq_true (by omega)]

theorem rank?_finite (negative : Bool) (units : Nat) (fits : Format.single.Fits units) :
    (finite negative units fits).rank? = some (signedUnits negative units) := rfl

theorem le_limit_of_rank? {x : Single} {q : ℤ} (h : x.rank? = some q) :
    q ≤ Format.single.limit := by
  cases x with
  | nan => cases h
  | infinite a => cases a <;> cases h <;> omega
  | finite a m hm =>
    cases h
    exact (signedUnits_bounds a hm.2).2.le

/-- **Whoever takes nothing positive away is left with no less**, if with a number at all. -/
theorem exists_rank?_le_of_sub {x y : Single} (hy : y.isPositive = false) {r : ℤ}
    (h : (x - y).rank? = some r) : ∃ q, x.rank? = some q ∧ q ≤ r := by
  cases y with
  | nan => cases x <;> cases h
  | infinite b =>
    obtain rfl : b = true := by
      cases b with
      | false => cases hy
      | true => rfl
    cases x with
    | nan => cases h
    | infinite a =>
      cases a with
      | false => exact ⟨_, h, le_rfl⟩
      | true => cases h
    | finite a m hm =>
      cases h
      exact ⟨_, rfl, le_limit_of_rank? (rank?_finite a m hm)⟩
  | finite b n hn =>
    have hle : signedUnits b n ≤ 0 := not_lt.1 (of_decide_eq_false hy)
    cases x with
    | nan => cases h
    | infinite a => exact ⟨_, h, le_rfl⟩
    | finite a m hm =>
      have hneg : signedUnits (!b) n = -signedUnits b n := by
        cases b with
        | false => rfl
        | true => exact (neg_neg (n : ℤ)).symm
      change (finite a m hm + finite (!b) n hn).rank? = some r at h
      rw [rank?_add_finite, hneg] at h
      obtain rfl := Option.some.inj h
      refine ⟨_, rank?_finite a m hm, ?_⟩
      calc signedUnits a m = saturate (signedUnits a m) := (saturate_signedUnits a hm).symm
        _ ≤ saturate (signedUnits a m + -signedUnits b n) := saturate_mono (by omega)

theorem isSpent_of_sub {x y : Single} (hy : y.isPositive = false) (h : (x - y).isSpent = true) :
    x.isSpent = true := by
  unfold isSpent at h ⊢
  cases hr : (x - y).rank? with
  | none => rw [hr] at h; cases h
  | some r =>
    rw [hr] at h
    obtain ⟨q, hq, hle⟩ := exists_rank?_le_of_sub hy hr
    rw [hq]
    exact decide_eq_true (hle.trans (of_decide_eq_true h))

end Single

end Colloquy
