import Mathlib.Data.Int.Log
import Mathlib.Tactic

/-!
# Rounding to a binary floating-point format

The nearest number of a format, ties to the even one, for numbers that are not negative: as a
rational number and as the code of the format (the exponent above the digits, so that the codes of
the finite numbers are in order); at the end, for numbers of either sign.

* `BinaryFormat`, `BinaryFormat.nearest`, `BinaryFormat.code` — formats and rounding;
* `BinaryFormat.abs_nearest_sub_le` — **PROVED**: rounding moves a number by at most half of its
  last place;
* `BinaryFormat.nearest_eq_of_code_eq` — **PROVED**: numbers of the same code are rounded to the
  same number;
* `BinaryFormat.nearest_natCast_iff` — **PROVED**: a whole number that fits the digits is what
  it is rounded to, and of the whole numbers nothing else is.
-/

namespace Axle

/-! ### Whole numbers -/

/-- The nearest whole number; of two that are as near, the even one. -/
def roundHalfEven (q : ℚ) : ℕ :=
  let low := ⌊q⌋₊
  if q - low < 1 / 2 then low
  else if 1 / 2 < q - low then low + 1
  else if low % 2 = 0 then low
  else low + 1

theorem roundHalfEven_natCast (n : ℕ) : roundHalfEven n = n := by
  simp [roundHalfEven]

theorem abs_roundHalfEven_sub_le {q : ℚ} (hq : 0 ≤ q) : |(roundHalfEven q : ℚ) - q| ≤ 1 / 2 := by
  have hlow := Nat.floor_le hq
  have hhigh := Nat.lt_floor_add_one q
  rw [abs_le]
  unfold roundHalfEven
  dsimp only
  split_ifs <;> constructor <;> push_cast <;> linarith

theorem le_roundHalfEven {n : ℕ} {q : ℚ} (h : (n : ℚ) ≤ q) : n ≤ roundHalfEven q := by
  have hfloor : n ≤ ⌊q⌋₊ := Nat.le_floor h
  unfold roundHalfEven
  dsimp only
  split_ifs <;> omega

theorem roundHalfEven_le {n : ℕ} {q : ℚ} (hq : 0 ≤ q) (h : q ≤ n) : roundHalfEven q ≤ n := by
  rcases h.lt_or_eq with hlt | rfl
  · have hfloor : ⌊q⌋₊ < n := (Nat.floor_lt hq).mpr hlt
    unfold roundHalfEven
    dsimp only
    split_ifs <;> omega
  · exact (roundHalfEven_natCast n).le

/-! ### Formats -/

/-- A format: `digits` binary digits, the last of them at `2 ^ least` or higher; and the code of
infinity. -/
structure BinaryFormat where
  digits : ℕ
  least : ℤ
  infinity : ℕ
  digits_pos : 0 < digits

namespace BinaryFormat

/-- The format of an `f64`. -/
def double : BinaryFormat where
  digits := 53
  least := -1074
  infinity := 2047 * 2 ^ 52
  digits_pos := by decide

variable (f : BinaryFormat)

/-- The exponent of the last digit that is kept of `q`. -/
def lastPlace (q : ℚ) : ℤ := max (Int.log 2 q - (f.digits - 1 : ℕ)) f.least

/-- The digits that are kept of `q`. -/
def significand (q : ℚ) : ℕ := roundHalfEven (q / 2 ^ f.lastPlace q)

/-- The number of the format that is nearest to `q`. -/
def nearest (q : ℚ) : ℚ := f.significand q * 2 ^ f.lastPlace q

/-- The code of the number that is nearest to `q`. -/
def code (q : ℚ) : ℕ :=
  if q = 0 then 0
  else min ((f.lastPlace q - f.least).toNat * 2 ^ (f.digits - 1) +
    f.significand q) f.infinity

variable {f} {q q' : ℚ}

theorem zpow_lastPlace_pos : (0 : ℚ) < 2 ^ f.lastPlace q := zpow_pos (by norm_num) _

/-- **The error (proved)** is at most half of the last place. -/
theorem abs_nearest_sub_le (hq : 0 ≤ q) :
    |f.nearest q - q| ≤ 2 ^ f.lastPlace q / 2 := by
  have hplace := zpow_lastPlace_pos (f := f) (q := q)
  have hround := abs_roundHalfEven_sub_le (div_nonneg hq hplace.le)
  have hdiff : f.nearest q - q =
      (f.significand q - q / 2 ^ f.lastPlace q) * 2 ^ f.lastPlace q := by
    rw [nearest, sub_mul, div_mul_cancel₀ _ hplace.ne']
  rw [hdiff, abs_mul, abs_of_pos hplace]
  calc |(f.significand q : ℚ) - q / 2 ^ f.lastPlace q| * 2 ^ f.lastPlace q
      ≤ 1 / 2 * 2 ^ f.lastPlace q := mul_le_mul_of_nonneg_right hround hplace.le
    _ = 2 ^ f.lastPlace q / 2 := by ring

theorem significand_le (hq : 0 < q) : f.significand q ≤ 2 ^ f.digits := by
  have hplace := zpow_lastPlace_pos (f := f) (q := q)
  refine roundHalfEven_le (div_nonneg hq.le hplace.le) ?_
  rw [div_le_iff₀ hplace]
  have hlog := Int.lt_zpow_succ_log_self (b := 2) (by norm_num) q
  have hle : Int.log 2 q + 1 ≤ f.digits + f.lastPlace q := by
    have := f.digits_pos
    unfold lastPlace
    omega
  calc q ≤ (2 : ℚ) ^ (Int.log 2 q + 1) := by exact_mod_cast hlog.le
    _ ≤ 2 ^ (f.digits + f.lastPlace q : ℤ) := zpow_le_zpow_right₀ (by norm_num) hle
    _ = (2 ^ f.digits : ℕ) * 2 ^ f.lastPlace q := by
      rw [zpow_add₀ (by norm_num)]
      norm_num

/-- All digits are used where smaller places are left. -/
theorem le_significand (hq : 0 < q) (hplace : f.least < f.lastPlace q) :
    2 ^ (f.digits - 1) ≤ f.significand q := by
  have hpos := zpow_lastPlace_pos (f := f) (q := q)
  refine le_roundHalfEven ?_
  rw [le_div_iff₀ hpos]
  have hlog := Int.zpow_log_le_self (b := 2) (by norm_num) hq
  have heq : (f.digits - 1 : ℕ) + f.lastPlace q = Int.log 2 q := by
    unfold lastPlace at hplace ⊢
    omega
  calc ((2 ^ (f.digits - 1) : ℕ) : ℚ) * 2 ^ f.lastPlace q
      = 2 ^ ((f.digits - 1 : ℕ) + f.lastPlace q : ℤ) := by
        rw [zpow_add₀ (by norm_num)]
        norm_num
    _ ≤ q := by
      rw [heq]
      exact_mod_cast hlog

theorem lastPlace_mono (hq : 0 < q) (h : q ≤ q') : f.lastPlace q ≤ f.lastPlace q' := by
  have := Int.log_mono_right (b := 2) hq h
  unfold lastPlace
  omega

/-! ### Codes -/

theorem nearest_eq_of_lastPlace_le (hq : 0 < q) (hq' : 0 < q')
    (hle : f.lastPlace q ≤ f.lastPlace q')
    (h : (f.lastPlace q - f.least).toNat * 2 ^ (f.digits - 1) +
        f.significand q =
      (f.lastPlace q' - f.least).toNat * 2 ^ (f.digits - 1) +
        f.significand q') :
    f.nearest q = f.nearest q' := by
  have hleast : f.least ≤ f.lastPlace q := le_max_right _ _
  obtain ⟨above, habove⟩ : ∃ above : ℕ, f.lastPlace q' = f.lastPlace q + above :=
    ⟨(f.lastPlace q' - f.lastPlace q).toNat, by omega⟩
  have hsum : f.significand q =
      above * 2 ^ (f.digits - 1) + f.significand q' := by
    have hsplit : (f.lastPlace q' - f.least).toNat =
        (f.lastPlace q - f.least).toNat + above := by omega
    rw [hsplit, add_mul] at h
    omega
  have hpow : 2 ^ f.digits = 2 * 2 ^ (f.digits - 1) := by
    rw [← pow_succ', Nat.sub_add_cancel f.digits_pos]
  rcases Nat.eq_zero_or_pos above with rfl | hpos
  · rw [zero_mul, zero_add] at hsum
    rw [nearest, nearest, hsum, habove, Nat.cast_zero, add_zero]
  · -- The digits have overflowed into the next place.
    have hmany := le_significand hq' (show f.least < f.lastPlace q' by omega)
    have hfew := significand_le (f := f) hq
    have habove1 : above = 1 := by
      by_contra hne
      have htwo : 2 * 2 ^ (f.digits - 1) ≤ above * 2 ^ (f.digits - 1) :=
        Nat.mul_le_mul_right _ (by omega)
      have := Nat.two_pow_pos (f.digits - 1)
      omega
    subst habove1
    have hq2 : f.significand q' = 2 ^ (f.digits - 1) := by omega
    have hq1 : f.significand q = 2 * 2 ^ (f.digits - 1) := by omega
    rw [nearest, nearest, hq1, hq2, habove, Nat.cast_one, zpow_add_one₀ (by norm_num)]
    push_cast
    ring

/-- **Numbers of one code (proved)** are rounded to the same number, unless it is infinity. -/
theorem nearest_eq_of_code_eq (hq : 0 < q) (hq' : 0 < q') (h : f.code q = f.code q')
    (hfinite : f.code q < f.infinity) : f.nearest q = f.nearest q' := by
  have hfinite' := h ▸ hfinite
  rw [code, if_neg hq.ne'] at h hfinite
  rw [code, if_neg hq'.ne'] at h hfinite'
  have hcodes := h
  rw [min_eq_left (by omega), min_eq_left (by omega)] at hcodes
  rcases le_total (f.lastPlace q) (f.lastPlace q') with hle | hle
  · exact nearest_eq_of_lastPlace_le hq hq' hle hcodes
  · exact (nearest_eq_of_lastPlace_le hq' hq hle hcodes.symm).symm

/-- **Numbers that are far apart (proved)** have different codes. -/
theorem code_ne (hq : 0 < q) (hle : q ≤ q') (hfar : (2 : ℚ) ^ f.lastPlace q' < q' - q)
    (hfinite : f.code q < f.infinity) : f.code q ≠ f.code q' := by
  intro h
  have hsame := nearest_eq_of_code_eq hq (hq.trans_le hle) h hfinite
  have herr := abs_le.mp (abs_nearest_sub_le (f := f) hq.le)
  have herr' := abs_le.mp (abs_nearest_sub_le (f := f) (hq.le.trans hle))
  have hplaces : (2 : ℚ) ^ f.lastPlace q ≤ 2 ^ f.lastPlace q' :=
    zpow_le_zpow_right₀ (by norm_num) (lastPlace_mono hq hle)
  linarith [herr.1, herr'.2]

/-! ### Whole numbers in a format -/

theorem nearest_natCast {n : ℕ} (hleast : f.least ≤ 0) (hn : n < 2 ^ f.digits) :
    f.nearest n = n := by
  have hplace : f.lastPlace n ≤ 0 := by
    have hlog : Int.log 2 (n : ℚ) ≤ (f.digits - 1 : ℕ) := by
      rw [Int.log_natCast]
      have hpos := f.digits_pos
      have := Nat.log_lt_of_lt_pow' (b := 2) hpos.ne' hn
      omega
    unfold lastPlace
    omega
  obtain ⟨k, hk⟩ : ∃ k : ℕ, f.lastPlace n = -(k : ℤ) :=
    ⟨(-f.lastPlace n).toNat, by omega⟩
  have hwhole : (n : ℚ) / 2 ^ f.lastPlace n = (n * 2 ^ k : ℕ) := by
    rw [hk, zpow_neg, div_inv_eq_mul]
    push_cast
    rfl
  have hpos := zpow_lastPlace_pos (f := f) (q := n)
  rw [nearest, significand, hwhole, roundHalfEven_natCast, ← hwhole, div_mul_cancel₀ _ hpos.ne']

theorem le_nearest_natCast {n : ℕ} (hn : 2 ^ f.digits ≤ n) (hleast : f.least ≤ 0) :
    ((2 ^ f.digits : ℕ) : ℚ) ≤ f.nearest n := by
  have hpos : (0 : ℚ) < n := by
    exact_mod_cast (Nat.two_pow_pos _).trans_le hn
  have hlog : (f.digits : ℤ) ≤ Int.log 2 (n : ℚ) := by
    exact_mod_cast Nat.le_log_of_pow_le (by norm_num) hn
  have hplace : f.lastPlace n = Int.log 2 (n : ℚ) - (f.digits - 1 : ℕ) := by
    unfold lastPlace
    omega
  have hmany : 2 ^ (f.digits - 1) ≤ f.significand n :=
    le_significand hpos (by have := f.digits_pos; omega)
  calc ((2 ^ f.digits : ℕ) : ℚ)
      = ((2 ^ (f.digits - 1) : ℕ) : ℚ) * 2 ^ (1 : ℤ) := by
        rw [← Nat.sub_add_cancel f.digits_pos]
        push_cast
        rw [pow_succ]
    _ ≤ f.significand n * 2 ^ f.lastPlace n := by
      refine mul_le_mul (by exact_mod_cast hmany) (zpow_le_zpow_right₀ (by norm_num) ?_)
        (by norm_num) (Nat.cast_nonneg _)
      have := f.digits_pos
      omega

/-- **Small whole numbers (proved)** are kept, and no other whole number is rounded to them. -/
theorem nearest_natCast_iff {n m : ℕ} (hleast : f.least ≤ 0) (hn : n < 2 ^ f.digits) :
    f.nearest m = n ↔ m = n := by
  refine ⟨fun h => ?_, fun h => ?_⟩
  swap
  · rw [h, nearest_natCast hleast hn]
  rcases Nat.lt_or_ge m (2 ^ f.digits) with hm | hm
  · rw [nearest_natCast hleast hm] at h
    exact_mod_cast h
  · have hlarge := le_nearest_natCast hm hleast
    rw [h] at hlarge
    exact absurd (by exact_mod_cast hlarge) (not_le.mpr hn)

/-- Rounding does not go below a whole number. -/
theorem le_nearest {n : ℕ} (hleast : f.least ≤ 0) (hn : n ≤ 2 ^ f.digits) (hq : 0 < q)
    (h : (n : ℚ) ≤ q) : (n : ℚ) ≤ f.nearest q := by
  have hpos := zpow_lastPlace_pos (f := f) (q := q)
  rcases le_or_gt (f.lastPlace q) 0 with hplace | hplace
  · obtain ⟨k, hk⟩ : ∃ k : ℕ, f.lastPlace q = -(k : ℤ) := ⟨(-f.lastPlace q).toNat, by omega⟩
    have hwhole : (n : ℚ) / 2 ^ f.lastPlace q = (n * 2 ^ k : ℕ) := by
      rw [hk, zpow_neg, div_inv_eq_mul]
      push_cast
      rfl
    have hdigits : n * 2 ^ k ≤ f.significand q :=
      le_roundHalfEven (by rw [← hwhole]; exact div_le_div_of_nonneg_right h hpos.le)
    calc (n : ℚ) = (n * 2 ^ k : ℕ) * 2 ^ f.lastPlace q := by
          rw [← hwhole, div_mul_cancel₀ _ hpos.ne']
      _ ≤ f.nearest q := mul_le_mul_of_nonneg_right (by exact_mod_cast hdigits) hpos.le
  · have hmany := le_significand hq (by omega : f.least < f.lastPlace q)
    calc (n : ℚ) ≤ (2 ^ f.digits : ℕ) := by exact_mod_cast hn
      _ = ((2 ^ (f.digits - 1) : ℕ) : ℚ) * 2 ^ (1 : ℤ) := by
        rw [← Nat.sub_add_cancel f.digits_pos]
        push_cast
        rw [pow_succ]
      _ ≤ f.nearest q :=
        mul_le_mul (by exact_mod_cast hmany) (zpow_le_zpow_right₀ (by norm_num) hplace)
          (by norm_num) (Nat.cast_nonneg _)

/-! ### Numbers with a sign -/

variable (f) in
/-- The number of the format that is nearest to `q`, of either sign. -/
def round (q : ℚ) : ℚ := if q < 0 then -f.nearest (-q) else f.nearest q

theorem round_of_nonneg (hq : 0 ≤ q) : f.round q = f.nearest q := if_neg (not_lt.mpr hq)

theorem round_intCast {z : ℤ} (hleast : f.least ≤ 0) (hz : |z| < 2 ^ f.digits) :
    f.round z = z := by
  have habs : z.natAbs < 2 ^ f.digits := by
    rw [Int.abs_eq_natAbs] at hz
    exact_mod_cast hz
  have hnearest := nearest_natCast hleast habs
  rw [Nat.cast_natAbs] at hnearest
  unfold round
  rcases lt_or_ge z 0 with hneg | hnonneg
  · rw [abs_of_neg hneg, Int.cast_neg] at hnearest
    rw [if_pos (by exact_mod_cast hneg), hnearest, neg_neg]
  · rw [abs_of_nonneg hnonneg] at hnearest
    rw [if_neg (by exact_mod_cast not_lt.mpr hnonneg), hnearest]

end BinaryFormat

end Axle
