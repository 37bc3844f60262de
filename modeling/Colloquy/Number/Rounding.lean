/-!
# Number/Rounding — rounding to a number of binary digits

Times and decimal variables are binary floating-point numbers. A magnitude is counted in units of
the smallest positive one, so it is a natural number, and a floating-point result is the exact one
rounded to a fixed number of binary digits (`roundBits`), a half going to the even neighbour
(`roundHalfEven`). `Format` says how many digits and how large, and `Format.Fits` holds of the
magnitudes a format has. Main statement: `fits_roundBits`, what was rounded needs no more rounding.
-/

namespace Colloquy

/-- The whole number nearest to `num / den`, a half going to the even neighbour. -/
def roundHalfEven (num den : Nat) : Nat :=
  let q := num / den
  let r := num % den
  if 2 * r < den then q
  else if den < 2 * r then q + 1
  else if q % 2 = 0 then q else q + 1

theorem roundHalfEven_bounds (num den : Nat) :
    num / den ≤ roundHalfEven num den ∧ roundHalfEven num den ≤ num / den + 1 := by
  simp only [roundHalfEven]
  split
  · omega
  · split
    · omega
    · split <;> omega

theorem roundHalfEven_mul_right {d : Nat} (n : Nat) (hd : 0 < d) :
    roundHalfEven (n * d) d = n := by
  simp [roundHalfEven, Nat.mul_div_cancel _ hd, hd]

/-- How many of the low binary digits of a number go when `bits` are kept. -/
def surplusBits (bits n : Nat) : Nat :=
  n.log2 + 1 - bits

/-- `num / den` rounded to `bits` binary digits. Below `2 ^ bits` that is a whole number. -/
def roundBits (bits num den : Nat) : Nat :=
  let surplus := surplusBits bits (num / den)
  roundHalfEven num (den <<< surplus) <<< surplus

theorem surplusBits_of_lt {bits n : Nat} (hb : 0 < bits) (h : n < 1 <<< bits) :
    surplusBits bits n = 0 := by
  rw [Nat.one_shiftLeft] at h
  unfold surplusBits
  rcases Nat.eq_zero_or_pos n with rfl | hn
  · simp
    omega
  · have := (Nat.log2_lt (by omega : n ≠ 0)).2 h
    omega

/-- The scaled number keeps all its digits: it has `bits` of them, the first one set. -/
theorem scaled_bounds {bits n : Nat} (hb : 0 < bits) (h : 1 <<< bits ≤ n) :
    1 <<< (bits - 1) ≤ n >>> surplusBits bits n ∧ n >>> surplusBits bits n < 1 <<< bits := by
  simp only [Nat.one_shiftLeft, Nat.shiftRight_eq_div_pow] at h ⊢
  have hn : n ≠ 0 := fun h0 => Nat.not_le_of_lt (Nat.pow_pos (by decide)) (h0 ▸ h)
  have hlog : bits ≤ n.log2 := (Nat.le_log2 hn).2 h
  have hs : surplusBits bits n = n.log2 + 1 - bits := rfl
  have hlo := Nat.log2_self_le hn
  have hhi := @Nat.lt_log2_self n
  constructor
  · rw [Nat.le_div_iff_mul_le (Nat.pow_pos (by decide)), ← Nat.pow_add, hs]
    rwa [show bits - 1 + (n.log2 + 1 - bits) = n.log2 by omega]
  · rw [Nat.div_lt_iff_lt_mul (Nat.pow_pos (by decide)), ← Nat.pow_add, hs]
    rwa [show bits + (n.log2 + 1 - bits) = n.log2 + 1 by omega]

theorem roundHalfEven_shiftLeft (n s : Nat) : roundHalfEven (n <<< s) (1 <<< s) = n := by
  rw [Nat.one_shiftLeft, Nat.shiftLeft_eq]
  exact roundHalfEven_mul_right n (Nat.pow_pos (by decide))

/-- A number that has zeros where binary digits go is left as it is. -/
theorem roundBits_of_eq_shiftLeft {bits n x : Nat} (h : n = x <<< surplusBits bits n) :
    roundBits bits n 1 = n := by
  have hr := roundHalfEven_shiftLeft x (surplusBits bits n)
  rw [← h] at hr
  rw [roundBits, Nat.div_one, hr, ← h]

theorem log2_shiftLeft_lt {bits m s : Nat} (hm : m < 1 <<< bits) (h0 : m ≠ 0) :
    (m <<< s).log2 < bits + s := by
  rw [Nat.one_shiftLeft] at hm
  rw [Nat.shiftLeft_eq, Nat.log2_lt (Nat.mul_ne_zero h0 (Nat.pos_iff_ne_zero.1
    (Nat.pow_pos (by decide)))), Nat.pow_add]
  exact Nat.mul_lt_mul_of_pos_right hm (Nat.pow_pos (by decide))

/-- A number of few digits, or one with its only digit before them, is exact. -/
theorem roundBits_exact {bits m s : Nat} (hb : 0 < bits) (hm : m ≤ 1 <<< bits) :
    roundBits bits (m <<< s) 1 = m <<< s := by
  rcases Nat.lt_or_ge m (1 <<< bits) with hlt | hge
  · have hle : surplusBits bits (m <<< s) ≤ s := by
      rcases Nat.eq_zero_or_pos m with rfl | hmp
      · simp [surplusBits]
        omega
      · have := log2_shiftLeft_lt (s := s) hlt (by omega)
        unfold surplusBits
        omega
    obtain ⟨d, hd⟩ := Nat.exists_eq_add_of_le hle
    refine roundBits_of_eq_shiftLeft (x := m <<< d) ?_
    rw [← Nat.shiftLeft_add, Nat.add_comm d, ← hd]
  · obtain rfl : m = 1 <<< bits := Nat.le_antisymm hm hge
    have hsur : surplusBits bits (1 <<< bits <<< s) = s + 1 := by
      rw [← Nat.shiftLeft_add, surplusBits, Nat.one_shiftLeft, Nat.log2_two_pow]
      omega
    refine roundBits_of_eq_shiftLeft (x := 1 <<< (bits - 1)) ?_
    rw [hsur, ← Nat.shiftLeft_add, ← Nat.shiftLeft_add]
    congr 1
    omega

/-- What is kept of a number has at most `bits` digits, or has just run over to `2 ^ bits`. -/
theorem roundHalfEven_surplusBits_le {bits num den : Nat} (hb : 0 < bits) :
    roundHalfEven num (den <<< surplusBits bits (num / den)) ≤ 1 <<< bits := by
  have hq : num / den <<< surplusBits bits (num / den) =
      (num / den) >>> surplusBits bits (num / den) := by
    rw [Nat.shiftLeft_eq, Nat.shiftRight_eq_div_pow, Nat.div_div_eq_div_mul]
  have hr := roundHalfEven_bounds num (den <<< surplusBits bits (num / den))
  rw [hq] at hr
  rcases Nat.lt_or_ge (num / den) (1 <<< bits) with hlt | hge
  · rw [surplusBits_of_lt hb hlt] at hr ⊢
    simp only [Nat.shiftRight_zero] at hr
    omega
  · have := (scaled_bounds hb hge).2
    omega

/-- **What was rounded needs no more rounding.** -/
theorem roundBits_roundBits {bits num den : Nat} (hb : 0 < bits) :
    roundBits bits (roundBits bits num den) 1 = roundBits bits num den :=
  roundBits_exact hb (roundHalfEven_surplusBits_le hb)

/-- A binary floating-point format: its numbers have `precision` binary digits, are multiples of
`2 ^ -scale`, and stay below `2 ^ range`. -/
structure Format where
  precision : Nat
  scale : Nat
  range : Nat

/-- The 32-bit format, in which times and decimal variables are kept. -/
def Format.single : Format := ⟨24, 149, 128⟩

/-- The 64-bit format, in which numbers of different kinds are compared. -/
def Format.double : Format := ⟨53, 1074, 1024⟩

/-- The first magnitude beyond the format, counted in its units. -/
def Format.limit (f : Format) : Nat := 1 <<< (f.range + f.scale)

/-- The format has a number of this magnitude, counted in its units. -/
def Format.Fits (f : Format) (units : Nat) : Prop :=
  roundBits f.precision units 1 = units ∧ units < f.limit

instance (f : Format) (units : Nat) : Decidable (f.Fits units) :=
  inferInstanceAs (Decidable (_ ∧ _))

theorem Format.fits_roundBits {f : Format} {num den : Nat} (hp : 0 < f.precision)
    (h : roundBits f.precision num den < f.limit) :
    f.Fits (roundBits f.precision num den) :=
  ⟨roundBits_roundBits hp, h⟩

end Colloquy
