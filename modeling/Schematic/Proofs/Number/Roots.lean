import Mathlib.Data.Nat.Sqrt
import Mathlib.Tactic.Linarith
import Mathlib.Tactic.Ring
import Schematic.Number.Rounding

/-!
# Square roots of whole numbers

The root that is found two bits at a time is the largest number whose square is no
larger.  Rounded up, a root has a limited count of digits.  Below half of the numbers
that have so many digits none of them is lost: a root that is no whole number exceeds
one by more than is rounded away.

## Main statements

* `floorSqrt_eq_sqrt` — the root rounded down.
* `le_ceilSqrt_mul_self` — the root of a number of few digits, rounded up, is large
  enough.
* `one_le_ceilSqrt` — the root of a positive number is positive, however it is rounded.
-/

namespace Schematic

/-! ### Rounding down -/

/-- The root that is found two bits at a time is the root rounded down. -/
theorem floorSqrt_eq_sqrt (n : ℕ) : floorSqrt n = Nat.sqrt n := by
  induction n using Nat.strong_induction_on with
  | _ n ih =>
    rw [floorSqrt]
    split
    · next h => rw [h, Nat.sqrt_zero]
    · next h =>
      -- the root of a quarter is doubled, and the last bit is tried
      simp only [ih (n / 4) (by omega)]
      have hle : Nat.sqrt (n / 4) * Nat.sqrt (n / 4) ≤ n / 4 := Nat.sqrt_le _
      have hlt : n / 4 < (Nat.sqrt (n / 4) + 1) * (Nat.sqrt (n / 4) + 1) := Nat.lt_succ_sqrt _
      generalize Nat.sqrt (n / 4) = s at hle hlt
      rw [Nat.le_div_iff_mul_le four_pos] at hle
      rw [Nat.div_lt_iff_lt_mul four_pos] at hlt
      split
      · next hbit => exact Nat.eq_sqrt.2 ⟨hbit, by linarith⟩
      · next hbit => exact Nat.eq_sqrt.2 ⟨by linarith, not_le.1 hbit⟩

/-! ### Rounding up -/

theorem div_le_roundDiv (num den : ℕ) : num / den ≤ roundDiv num den := by
  unfold roundDiv
  simp only
  split
  · exact le_rfl
  · split
    · exact Nat.le_succ _
    · split
      · exact le_rfl
      · exact Nat.le_succ _

theorem one_le_roundSignificant {digits n : ℕ} (hdigits : 1 ≤ digits) (h : 1 ≤ n) :
    1 ≤ roundSignificant digits n := by
  -- the unit of the last digit is no larger than the number itself
  have hunit : twoPow (Nat.log2 n + 1 - digits) ≤ n :=
    (Nat.pow_le_pow_right (by norm_num) (by omega)).trans (Nat.log2_self_le (by omega))
  have hpos : 0 < twoPow (Nat.log2 n + 1 - digits) := Nat.two_pow_pos _
  have hquot : 1 ≤ n / twoPow (Nat.log2 n + 1 - digits) := (Nat.one_le_div_iff hpos).2 hunit
  exact Nat.mul_pos (hquot.trans (div_le_roundDiv _ _)) hpos

/-- The root of a positive number is positive, however it is rounded. -/
theorem one_le_ceilSqrt {digits n : ℕ} (hdigits : 1 ≤ digits) (h : 1 ≤ n) :
    1 ≤ ceilSqrt digits n := by
  have hroot : 1 ≤ floorSqrt (roundSignificant digits n) := by
    rw [floorSqrt_eq_sqrt, Nat.le_sqrt]
    exact one_le_roundSignificant hdigits h
  unfold ceilSqrt
  simp only
  split
  · exact hroot
  · exact Nat.le_succ_of_le hroot

theorem roundDiv_one (n : ℕ) : roundDiv n 1 = n := by
  simp [roundDiv, Nat.mod_one]

/-- A number that has no more digits than are kept stays as it is. -/
theorem roundSignificant_of_lt {digits n : ℕ} (h : n < 2 ^ digits) :
    roundSignificant digits n = n := by
  rcases eq_or_ne n 0 with rfl | hn
  · simp [roundSignificant, roundDiv]
  · have hdigits : Nat.log2 n + 1 - digits = 0 :=
      Nat.sub_eq_zero_of_le ((Nat.log2_lt hn).2 h)
    have hunit : twoPow 0 = 1 := rfl
    simp only [roundSignificant, hdigits, hunit, roundDiv_one, mul_one]

/-- What is left over when a root is rounded down is too much to be rounded away. -/
theorem mul_twoPow_lt {digits r : ℕ} (h : 2 * Nat.log2 r + 2 ≤ digits) :
    (r * twoPow (digits - Nat.log2 r) + 1) * (r * twoPow (digits - Nat.log2 r) + 1) <
      (r * r + 1) * (twoPow (digits - Nat.log2 r) * twoPow (digits - Nat.log2 r)) := by
  have hscale : 2 * r + 2 ≤ twoPow (digits - Nat.log2 r) := by
    calc 2 * r + 2 = 2 * (r + 1) := by ring
      _ ≤ 2 * 2 ^ (Nat.log2 r + 1) := Nat.mul_le_mul_left 2 Nat.lt_log2_self
      _ = 2 ^ (Nat.log2 r + 2) := by ring
      _ ≤ 2 ^ (digits - Nat.log2 r) := Nat.pow_le_pow_right two_pos (by omega)
  generalize twoPow (digits - Nat.log2 r) = scale at hscale
  calc (r * scale + 1) * (r * scale + 1) = r * r * (scale * scale) + (2 * r * scale + 1) := by ring
    _ < r * r * (scale * scale) + (2 * r + 2) * scale := by linarith
    _ ≤ r * r * (scale * scale) + scale * scale :=
      Nat.add_le_add_left (Nat.mul_le_mul_right scale hscale) _
    _ = (r * r + 1) * (scale * scale) := by ring

/-- The root of a number that has one digit less than are kept, rounded up, is no smaller
than the root. -/
theorem le_ceilSqrt_mul_self {digits n : ℕ} (h : n < 2 ^ (digits - 1)) :
    n ≤ ceilSqrt digits n * ceilSqrt digits n := by
  have hkept : roundSignificant digits n = n :=
    roundSignificant_of_lt (h.trans_le (Nat.pow_le_pow_right two_pos (Nat.sub_le _ _)))
  simp only [ceilSqrt, hkept, floorSqrt_eq_sqrt]
  split
  · next hround =>
    by_contra! hmore
    -- the root is no whole number, and then it was not rounded down
    have hroot : Nat.sqrt n ≠ 0 := (Nat.sqrt_pos.2 (Nat.zero_lt_of_lt hmore)).ne'
    have hpow : 2 ^ (2 * Nat.log2 (Nat.sqrt n)) < 2 ^ (digits - 1) := by
      calc 2 ^ (2 * Nat.log2 (Nat.sqrt n))
          = 2 ^ Nat.log2 (Nat.sqrt n) * 2 ^ Nat.log2 (Nat.sqrt n) := by ring
        _ ≤ Nat.sqrt n * Nat.sqrt n := Nat.mul_self_le_mul_self (Nat.log2_self_le hroot)
        _ < 2 ^ (digits - 1) := hmore.trans h
    have hlog : 2 * Nat.log2 (Nat.sqrt n) < digits - 1 :=
      (Nat.pow_lt_pow_iff_right one_lt_two).1 hpow
    refine ((mul_twoPow_lt (by omega)).trans_le ?_).not_ge hround
    exact Nat.mul_le_mul_right _ hmore
  · exact (Nat.lt_succ_sqrt n).le

end Schematic
