import Colloquy.Number.Rounding
import Mathlib.Algebra.Order.Field.Power
import Mathlib.Data.Int.Order.Lemmas
import Mathlib.Data.Nat.Log
import Mathlib.Tactic.Linarith
import Mathlib.Tactic.Positivity
import Mathlib.Tactic.Ring
import Mathlib.Tactic.Zify

/-!
# Proofs/Number/Nearest — rounding keeps order and gives the nearest number

`Format.round` rounds a signed whole number to the digits of a format. Rounding never crosses what
it leaves as it is, since it keeps order (`Format.round_mono`), and it does not matter in which
units a number is counted (`roundBits_shiftLeft`). Main statement: what comes of rounding a 64-bit
whole number is a number of the 64-bit format (`Format.Has`), and none of them lies nearer
(`Format.nearest_round`).
-/

namespace Colloquy

/-! ## Order -/

theorem roundHalfEven_mono {m n : Nat} (d : Nat) (h : m ≤ n) :
    roundHalfEven m d ≤ roundHalfEven n d := by
  rcases (Nat.div_le_div_right h : m / d ≤ n / d).lt_or_eq with hlt | heq
  · have hm := (roundHalfEven_bounds m d).2
    have hn := (roundHalfEven_bounds n d).1
    omega
  · have hr : m % d ≤ n % d := by
      have hm := Nat.div_add_mod m d
      have hn := Nat.div_add_mod n d
      rw [heq] at hm
      omega
    simp only [roundHalfEven, heq]
    split_ifs <;> omega

theorem surplusBits_mono (bits : Nat) {m n : Nat} (h : m ≤ n) :
    surplusBits bits m ≤ surplusBits bits n := by
  have hlog : m.log2 ≤ n.log2 := by
    rw [Nat.log2_eq_log_two, Nat.log2_eq_log_two]
    exact Nat.log_mono_right h
  exact Nat.sub_le_sub_right (Nat.succ_le_succ hlog) bits

theorem one_shiftLeft_le_of_surplusBits {bits n : Nat} (hb : 0 < bits)
    (h : 0 < surplusBits bits n) : 1 <<< bits ≤ n := by
  by_contra hlt
  rw [surplusBits_of_lt hb (Nat.lt_of_not_le hlt)] at h
  exact Nat.lt_irrefl 0 h

theorem roundBits_eq (bits n : Nat) : roundBits bits n 1 =
    roundHalfEven n (1 <<< surplusBits bits n) <<< surplusBits bits n := by
  rw [roundBits, Nat.div_one]

/-- What is rounded has at most `bits` digits before its zeros, or is a power of two. -/
theorem roundHalfEven_le {bits : Nat} (n : Nat) (hb : 0 < bits) :
    roundHalfEven n (1 <<< surplusBits bits n) ≤ 1 <<< bits := by
  have := @roundHalfEven_surplusBits_le bits n 1 hb
  rwa [Nat.div_one] at this

theorem roundBits_le {bits : Nat} (n : Nat) (hb : 0 < bits) :
    roundBits bits n 1 ≤ 1 <<< (bits + surplusBits bits n) := by
  have hle := roundHalfEven_le n hb
  rw [roundBits_eq, Nat.shiftLeft_add]
  simp only [Nat.shiftLeft_eq] at hle ⊢
  exact Nat.mul_le_mul_right _ hle

/-- A number that loses digits starts with a one, and rounding leaves that in place. -/
theorem le_roundBits {bits n : Nat} (hb : 0 < bits) (h : 0 < surplusBits bits n) :
    1 <<< (bits - 1 + surplusBits bits n) ≤ roundBits bits n 1 := by
  have hlo := (scaled_bounds hb (one_shiftLeft_le_of_surplusBits hb h)).1
  have hle := (roundHalfEven_bounds n (1 <<< surplusBits bits n)).1
  rw [roundBits_eq, Nat.shiftLeft_add]
  simp only [Nat.shiftLeft_eq, Nat.shiftRight_eq_div_pow, Nat.one_mul] at hlo hle ⊢
  exact Nat.mul_le_mul_right _ (hlo.trans hle)

theorem roundBits_mono {bits m n : Nat} (hb : 0 < bits) (h : m ≤ n) :
    roundBits bits m 1 ≤ roundBits bits n 1 := by
  rcases (surplusBits_mono bits h).eq_or_lt with heq | hlt
  · simp only [roundBits_eq, heq, Nat.shiftLeft_eq]
    exact Nat.mul_le_mul_right _ (roundHalfEven_mono _ h)
  · have hexp : bits + surplusBits bits m ≤ bits - 1 + surplusBits bits n := by omega
    calc roundBits bits m 1 ≤ 1 <<< (bits + surplusBits bits m) := roundBits_le m hb
      _ ≤ 1 <<< (bits - 1 + surplusBits bits n) := by
        simpa only [Nat.one_shiftLeft] using Nat.pow_le_pow_right (by decide) hexp
      _ ≤ roundBits bits n 1 := le_roundBits hb (by omega)

/-! ## Units -/

theorem log2_shiftLeft {n : Nat} (hn : n ≠ 0) (k : Nat) : (n <<< k).log2 = n.log2 + k := by
  induction k with
  | zero => rfl
  | succ k ih =>
    have hne : n <<< k ≠ 0 := by
      rw [Nat.shiftLeft_eq]
      exact Nat.mul_ne_zero hn (Nat.two_pow_pos k).ne'
    rw [Nat.shiftLeft_succ, Nat.log2_two_mul hne, ih, Nat.add_assoc]

theorem roundHalfEven_shiftLeft_shiftLeft (n d k : Nat) :
    roundHalfEven (n <<< k) (d <<< k) = roundHalfEven n d := by
  have hk : 0 < 2 ^ k := Nat.two_pow_pos k
  simp only [roundHalfEven, Nat.shiftLeft_eq, Nat.mul_div_mul_right _ _ hk, Nat.mul_mod_mul_right,
    ← Nat.mul_assoc, Nat.mul_lt_mul_right hk]

/-- A number counted in smaller units is rounded to the same number, counted in them. -/
theorem roundBits_shiftLeft {bits : Nat} (n k : Nat) (hb : 0 < bits) :
    roundBits bits (n <<< k) 1 = roundBits bits n 1 <<< k := by
  rcases Nat.lt_or_ge n (1 <<< bits) with hlt | hge
  · have hn : roundBits bits n 1 = n := by
      simpa using roundBits_exact (s := 0) hb hlt.le
    rw [hn, roundBits_exact hb hlt.le]
  · have hn : n ≠ 0 := fun h0 => by
      rw [h0, Nat.one_shiftLeft] at hge
      exact Nat.not_le_of_lt (Nat.two_pow_pos bits) hge
    have hlog : bits ≤ n.log2 := (Nat.le_log2 hn).2 (by rwa [Nat.one_shiftLeft] at hge)
    have hsur : surplusBits bits (n <<< k) = surplusBits bits n + k := by
      unfold surplusBits
      rw [log2_shiftLeft hn]
      omega
    rw [roundBits_eq, roundBits_eq, hsur, Nat.shiftLeft_add, Nat.shiftLeft_add,
      roundHalfEven_shiftLeft_shiftLeft]

namespace Format

/-- A whole number rounded to the digits of a format. -/
def round (f : Format) (n : ℤ) : ℤ := n.sign * roundBits f.precision n.natAbs 1

/-- The format has a number: few digits times a power of two, neither too small nor too large. -/
def Has (f : Format) (q : ℚ) : Prop :=
  ∃ m e : ℤ, q = m * 2 ^ e ∧ |m| < 2 ^ f.precision ∧ -(f.scale : ℤ) ≤ e ∧ |q| < 2 ^ f.range

variable {f : Format}

theorem round_natCast (n : Nat) : f.round n = roundBits f.precision n 1 := by
  rcases n.eq_zero_or_pos with rfl | hn
  · simp [round, roundBits, roundHalfEven]
  · rw [round, Int.sign_eq_one_of_pos (by omega), Int.natAbs_natCast, one_mul]

theorem round_neg (n : ℤ) : f.round (-n) = -f.round n := by
  rw [round, round, Int.sign_neg, Int.natAbs_neg, neg_mul]

theorem round_nonneg {n : ℤ} (hn : 0 ≤ n) : 0 ≤ f.round n := by
  obtain ⟨n, rfl⟩ := Int.eq_ofNat_of_zero_le hn
  rw [round_natCast]
  exact Int.natCast_nonneg _

/-- **Rounding keeps order.** -/
theorem round_mono (hp : 0 < f.precision) {m n : ℤ} (h : m ≤ n) : f.round m ≤ f.round n := by
  have hmono : ∀ {m n : ℤ}, 0 ≤ m → m ≤ n → f.round m ≤ f.round n := by
    intro m n hm h
    obtain ⟨m, rfl⟩ := Int.eq_ofNat_of_zero_le hm
    obtain ⟨n, rfl⟩ := Int.eq_ofNat_of_zero_le (hm.trans h)
    rw [round_natCast, round_natCast]
    exact_mod_cast roundBits_mono hp (by omega)
  rcases le_total 0 m with hm | hm
  · exact hmono hm h
  · rcases le_total 0 n with hn | hn
    · have := round_nonneg (f := f) (n := -m) (by omega)
      rw [round_neg] at this
      exact (by omega : f.round m ≤ 0).trans (round_nonneg hn)
    · have := hmono (m := -n) (n := -m) (by omega) (by omega)
      rw [round_neg, round_neg] at this
      omega

theorem round_mul_two_pow (hp : 0 < f.precision) (n : ℤ) (k : Nat) :
    f.round (n * 2 ^ k) = f.round n * 2 ^ k := by
  have hsign : (n * 2 ^ k).sign = n.sign := by
    have hpow : ((2 : ℤ) ^ k).sign = 1 := Int.sign_eq_one_of_pos (by positivity)
    rw [Int.sign_mul, hpow, mul_one]
  have habs : (n * 2 ^ k).natAbs = n.natAbs <<< k := by
    rw [Int.natAbs_mul, Int.natAbs_pow, Nat.shiftLeft_eq]
    rfl
  rw [round, round, hsign, habs, roundBits_shiftLeft _ _ hp, Nat.shiftLeft_eq]
  push_cast
  ring

/-- A number of few digits before its zeros is left as it is. -/
theorem round_eq_self_of_eq_shiftLeft (hp : 0 < f.precision) {n : ℤ} {m s : Nat}
    (hm : m ≤ 1 <<< f.precision) (h : n.natAbs = m <<< s) : f.round n = n := by
  rw [round, h, roundBits_exact hp hm, ← h, Int.sign_mul_natAbs]

/-- A number that a format has is left as it is. -/
theorem round_of_has (hp : 0 < f.precision) {n : ℤ} (h : f.Has n) : f.round n = n := by
  obtain ⟨m, e, hn, hm, -, -⟩ := h
  have hm : m.natAbs < 2 ^ f.precision := by zify; exact hm
  obtain ⟨k, rfl | rfl⟩ := e.eq_nat_or_neg
  · refine round_eq_self_of_eq_shiftLeft hp (m := m.natAbs) (s := k) ?_ ?_
    · rw [Nat.one_shiftLeft]
      exact hm.le
    · have : n = m * 2 ^ k := by exact_mod_cast hn
      rw [this, Int.natAbs_mul, Int.natAbs_pow, Nat.shiftLeft_eq]
      rfl
  · refine round_eq_self_of_eq_shiftLeft hp (m := n.natAbs) (s := 0) ?_ rfl
    have : n * 2 ^ k = m := by
      rw [zpow_neg, zpow_natCast, eq_mul_inv_iff_mul_eq₀ (by positivity)] at hn
      exact_mod_cast hn
    have hle : n.natAbs ≤ m.natAbs := by
      rw [← this, Int.natAbs_mul]
      exact Nat.le_mul_of_pos_right _ (Int.natAbs_pos.2 (by positivity))
    rw [Nat.one_shiftLeft]
    exact hle.trans hm.le

/-! ## Nearness -/

theorem Has.neg {q : ℚ} (h : f.Has q) : f.Has (-q) := by
  obtain ⟨m, e, rfl, hm, he, hq⟩ := h
  refine ⟨-m, e, ?_, by rwa [abs_neg], he, by rwa [abs_neg]⟩
  rw [Int.cast_neg, neg_mul]

/-- A number of few digits before its zeros is one that the format has, if it is not too large. -/
theorem has_shiftLeft (hp : 0 < f.precision) {m s : Nat} (hm : m ≤ 1 <<< f.precision)
    (hlt : m <<< s < 2 ^ f.range) : f.Has (m <<< s : Nat) := by
  have habs : |((m <<< s : Nat) : ℚ)| < 2 ^ f.range := by
    rw [Nat.abs_cast]
    exact_mod_cast hlt
  obtain ⟨p, hp⟩ := Nat.exists_eq_add_one.2 hp
  rw [Nat.one_shiftLeft] at hm
  rcases hm.lt_or_eq with hm | rfl
  · refine ⟨m, s, ?_, by simpa using mod_cast hm, by omega, habs⟩
    rw [Nat.shiftLeft_eq, zpow_natCast]
    push_cast
    rfl
  · -- one digit too many, the last of which is zero
    refine ⟨2 ^ p, (s + 1 : Nat), ?_, ?_, by omega, habs⟩
    · rw [Nat.shiftLeft_eq, zpow_natCast, hp]
      push_cast
      ring
    · rw [abs_of_pos (by positivity), hp]
      exact pow_lt_pow_right₀ one_lt_two (Nat.lt_succ_self p)

theorem has_round_natCast (hp : 0 < f.precision) {n k : Nat} (hn : n ≤ 2 ^ k) (hk : k < f.range) :
    f.Has (f.round n) := by
  have hle : roundBits f.precision n 1 ≤ 2 ^ k := by
    have hone : 1 ≤ 1 <<< f.precision := by
      rw [Nat.one_shiftLeft]
      exact Nat.one_le_two_pow
    have hfix := roundBits_exact (s := k) hp hone
    rw [Nat.one_shiftLeft] at hfix
    exact (roundBits_mono hp hn).trans hfix.le
  rw [round_natCast, Int.cast_natCast]
  rw [roundBits_eq] at hle ⊢
  exact has_shiftLeft hp (roundHalfEven_le n hp)
    (hle.trans_lt (Nat.pow_lt_pow_right (by decide) hk))

/-- What comes of rounding is a number that the format has. -/
theorem has_round (hp : 0 < f.precision) {n : ℤ} {k : Nat} (hn : n.natAbs ≤ 2 ^ k)
    (hk : k < f.range) : f.Has (f.round n) := by
  obtain ⟨m, rfl | rfl⟩ := n.eq_nat_or_neg
  · exact has_round_natCast hp hn hk
  · rw [round_neg, Int.cast_neg]
    rw [Int.natAbs_neg] at hn
    exact (has_round_natCast hp hn hk).neg

/-- No number of the format lies between two neighbouring multiples of the last digit kept. -/
theorem Has.le_or_le {q : ℚ} (hq : f.Has q) {k s : Nat} (hs : 0 < s)
    (hk : 2 ^ f.precision ≤ 2 * k) : q ≤ k * 2 ^ s ∨ (k + 1 : Nat) * 2 ^ s ≤ q := by
  obtain ⟨m, e, rfl, hm, -, -⟩ := hq
  rcases le_or_gt (s : ℤ) e with he | he
  · obtain ⟨j, rfl⟩ := Int.le.dest he
    have hpow : (m : ℚ) * 2 ^ ((s : ℤ) + j) = (m * 2 ^ j : ℤ) * 2 ^ s := by
      rw [zpow_add₀ two_ne_zero, zpow_natCast, zpow_natCast]
      push_cast
      ring
    rw [hpow]
    have h2 : (0 : ℚ) ≤ 2 ^ s := by positivity
    rcases le_or_gt (m * 2 ^ j) (k : ℤ) with h | h
    · exact .inl (mul_le_mul_of_nonneg_right (by exact_mod_cast h) h2)
    · exact .inr (mul_le_mul_of_nonneg_right (by exact_mod_cast h) h2)
  · left
    obtain ⟨s, rfl⟩ := Nat.exists_eq_add_one.2 hs
    have hm : (m : ℚ) ≤ 2 * k := by
      have : m ≤ 2 * k := (le_abs_self m).trans (hm.le.trans (by exact_mod_cast hk))
      exact_mod_cast this
    calc (m : ℚ) * 2 ^ e ≤ 2 * k * 2 ^ e := by gcongr
      _ ≤ 2 * k * 2 ^ (s : ℤ) := by
        gcongr
        · exact one_le_two
        · push_cast at he
          omega
      _ = k * 2 ^ (s + 1) := by
        rw [zpow_natCast]
        ring

/-- Rounding goes to the nearer of two neighbouring multiples, and to the even one of equally near
ones. -/
theorem roundHalfEven_cases (n d : Nat) :
    roundHalfEven n d = n / d ∧ (2 * (n % d) < d ∨ 2 * (n % d) = d ∧ n / d % 2 = 0) ∨
      roundHalfEven n d = n / d + 1 ∧ (d < 2 * (n % d) ∨ 2 * (n % d) = d ∧ n / d % 2 = 1) := by
  simp only [roundHalfEven]
  split_ifs <;> omega

/-- `x` is as near to `n` as `q` is; if `q` is another one as near, `x` is an even multiple of the
gap between them. -/
def AsNear (x n q : ℚ) : Prop :=
  |x - n| ≤ |q - n| ∧ (q ≠ x → |q - n| = |x - n| → ∃ k : ℤ, x = 2 * k * |q - x|)

theorem AsNear.refl (x n : ℚ) : AsNear x n x := ⟨le_rfl, fun h => absurd rfl h⟩

theorem AsNear.of_lt {x n q : ℚ} (h : |x - n| < |q - n|) : AsNear x n q :=
  ⟨h.le, fun _ heq => absurd heq h.ne'⟩

theorem AsNear.neg {x n q : ℚ} (h : AsNear x n (-q)) : AsNear (-x) (-n) q := by
  have hdist : ∀ y z : ℚ, |y - -z| = |-y - z| := fun y z => by
    rw [← abs_neg, neg_sub, sub_eq_add_neg, add_comm, sub_eq_add_neg]
  refine ⟨?_, fun hne heq => ?_⟩
  · rw [hdist, hdist, neg_neg]
    exact h.1
  · rw [hdist, hdist, neg_neg] at heq
    obtain ⟨k, hk⟩ := h.2 (fun h => hne (neg_eq_iff_eq_neg.1 h)) heq
    refine ⟨-k, ?_⟩
    rw [hdist, Int.cast_neg, mul_neg, neg_mul, ← hk]

/-- The lower of two neighbours is as near as anything that does not lie between them, if it is the
nearer one or, of equally near ones, the even one. -/
theorem AsNear.of_lower {lo hi n q : ℚ} (hlo : lo ≤ n)
    (h : n - lo < hi - n ∨ n - lo = hi - n ∧ ∃ k : ℤ, lo = 2 * k * (hi - lo))
    (hq : q ≤ lo ∨ hi ≤ q) : AsNear lo n q := by
  have hdist : |lo - n| = n - lo := by rw [abs_of_nonpos (by linarith), neg_sub]
  rcases hq with hq | hq
  · rcases hq.eq_or_lt with rfl | hq
    · exact .refl q n
    · refine .of_lt ?_
      rw [hdist, abs_of_nonpos (by linarith)]
      linarith
  · have hhi : n ≤ hi := by rcases h with h | ⟨h, -⟩ <;> linarith
    have hdistq : |q - n| = q - n := abs_of_nonneg (by linarith)
    rcases lt_or_ge (n - lo) (q - n) with hlt | hge
    · exact .of_lt (by rwa [hdist, hdistq])
    · obtain ⟨htie, heven⟩ := h.resolve_left (by linarith)
      obtain rfl : hi = q := by linarith
      refine ⟨by rw [hdist, hdistq, htie], fun _ _ => ?_⟩
      rwa [abs_of_nonneg (by linarith)]

theorem AsNear.of_upper {lo hi n q : ℚ} (hhi : n ≤ hi)
    (h : hi - n < n - lo ∨ hi - n = n - lo ∧ ∃ k : ℤ, hi = 2 * k * (hi - lo))
    (hq : q ≤ lo ∨ hi ≤ q) : AsNear hi n q := by
  have hlower : AsNear (-hi) (-n) (-q) := by
    refine @AsNear.of_lower (-hi) (-lo) (-n) (-q) (by linarith) ?_ ?_
    · rcases h with h | ⟨h, k, hk⟩
      · exact .inl (by linarith)
      · refine .inr ⟨by linarith, -k, ?_⟩
        push_cast
        linarith
    · exact hq.symm.imp neg_le_neg neg_le_neg
  simpa using hlower.neg

theorem roundHalfEven_asNear (n : Nat) {d : Nat} (hd : 0 < d) {q : ℚ}
    (hq : q ≤ (n / d : Nat) * d ∨ (n / d + 1 : Nat) * d ≤ q) :
    AsNear (roundHalfEven n d * d) n q := by
  have hn : ((n / d : Nat) : ℚ) * d + (n % d : Nat) = n := by
    exact_mod_cast Nat.div_add_mod' n d
  have hmod : (0 : ℚ) ≤ (n % d : Nat) := Nat.cast_nonneg _
  have hlt : ((n % d : Nat) : ℚ) < d := Nat.cast_lt.2 (Nat.mod_lt n hd)
  have hnext : ((n / d + 1 : Nat) : ℚ) * d = (n / d : Nat) * d + d := by
    push_cast
    ring
  have heven : ∀ k : Nat, k % 2 = 0 → ∃ j : ℤ,
      (k : ℚ) * d = 2 * j * ((n / d + 1 : Nat) * d - (n / d : Nat) * d) := fun k hk => by
    obtain ⟨j, rfl⟩ := Nat.dvd_of_mod_eq_zero hk
    refine ⟨j, ?_⟩
    rw [hnext, add_sub_cancel_left]
    push_cast
    ring
  rcases roundHalfEven_cases n d with ⟨hr, h⟩ | ⟨hr, h⟩
  · rw [hr]
    refine .of_lower (by linarith) ?_ hq
    rcases h with h | ⟨h, hk⟩
    · have h : (2 : ℚ) * (n % d : Nat) < d := by exact_mod_cast h
      exact .inl (by linarith)
    · have h : (2 : ℚ) * (n % d : Nat) = d := by exact_mod_cast h
      exact .inr ⟨by linarith, heven _ hk⟩
  · rw [hr]
    refine .of_upper (by linarith) ?_ hq
    rcases h with h | ⟨h, hk⟩
    · have h : (d : ℚ) < 2 * (n % d : Nat) := by exact_mod_cast h
      exact .inl (by linarith)
    · have h : (2 : ℚ) * (n % d : Nat) = d := by exact_mod_cast h
      exact .inr ⟨by linarith, heven _ (by omega)⟩

theorem nearest_round_natCast (hp : 0 < f.precision) (n : Nat) {q : ℚ} (hq : f.Has q) :
    AsNear (f.round n) n q := by
  rw [round_natCast, Int.cast_natCast]
  rcases (surplusBits f.precision n).eq_zero_or_pos with hs | hs
  · have hround : roundBits f.precision n 1 = n := by
      rw [roundBits_eq, hs]
      simp [roundHalfEven, Nat.mod_one]
    rw [hround]
    refine ⟨by simp, fun hne heq => absurd ?_ hne⟩
    rwa [sub_self, abs_zero, abs_eq_zero, sub_eq_zero] at heq
  · have hlo := (scaled_bounds hp (one_shiftLeft_le_of_surplusBits hp hs)).1
    rw [Nat.shiftRight_eq_div_pow, Nat.one_shiftLeft] at hlo
    have hk : 2 ^ f.precision ≤ 2 * (n / 2 ^ surplusBits f.precision n) := by
      calc 2 ^ f.precision = 2 * 2 ^ (f.precision - 1) := by
            rw [← pow_succ', Nat.sub_add_cancel hp]
        _ ≤ _ := Nat.mul_le_mul_left 2 hlo
    rw [roundBits_eq, Nat.shiftLeft_eq, Nat.one_shiftLeft, Nat.cast_mul]
    exact roundHalfEven_asNear n (Nat.two_pow_pos _) (by exact_mod_cast hq.le_or_le hs hk)

/-- **No number of the format lies nearer than the one that rounding gives,** and of two equally
near ones it gives the even one. -/
theorem nearest_round (hp : 0 < f.precision) (n : ℤ) {q : ℚ} (hq : f.Has q) :
    AsNear (f.round n) n q := by
  obtain ⟨m, rfl | rfl⟩ := n.eq_nat_or_neg
  · exact_mod_cast nearest_round_natCast hp m hq
  · have := (nearest_round_natCast hp m hq.neg).neg
    rw [round_neg]
    exact_mod_cast this

end Format

end Colloquy
