import Mathlib.Algebra.Order.Archimedean.Real.Basic
import Mathlib.Analysis.Real.Sqrt
import Mathlib.Data.Rat.Floor
import Mathlib.Data.Rat.Sqrt
import Schematic.Number.Scalar

/-!
# Exact coordinates

A coordinate type is *exact* if its members are real numbers and its operations
are those of the real numbers.  Facts about drawings that rounding errors would
spoil are stated for such types.  Roots need not exist, so a hypotenuse is only
known where it is a member of the type; nothing is said about angles.

## Main definitions

* `roundAway`, `wholePart` — the nearest whole number, and the whole number
  toward zero.
* `Decimal.value` — the real number of a decimal text.
* `ExactScalar` — exact coordinate types.
* `instScalarRat`, `instExactScalarRat` — the rational numbers are one.
* `WideRat` — the rational numbers once more, infinity being a large one.

## Main statements

* `ExactScalar.value_abs`, `ExactScalar.value_max`, `ExactScalar.value_min` — the
  derived operations are exact as well.
* `ExactScalar.le_foldl_max`, `ExactScalar.foldl_max_mem` — the largest of some
  numbers.
-/

namespace Schematic

section Rounding

variable {K : Type} [Field K] [LinearOrder K] [FloorRing K]

/-- The nearest whole number, a tie going away from zero. -/
def roundAway (x : K) : ℤ := if 0 ≤ x then ⌊x + 1 / 2⌋ else ⌈x - 1 / 2⌉

/-- The whole number toward zero. -/
def wholePart (x : K) : ℤ := if 0 ≤ x then ⌊x⌋ else ⌈x⌉

variable [IsStrictOrderedRing K]

@[simp] theorem roundAway_intCast (n : ℤ) : roundAway (n : K) = n := by
  unfold roundAway
  split
  · rw [Int.floor_eq_iff]
    constructor <;> linarith
  · rw [Int.ceil_eq_iff]
    constructor <;> linarith

@[simp] theorem wholePart_intCast (n : ℤ) : wholePart (n : K) = n := by
  simp [wholePart]

theorem roundAway_ratCast (q : ℚ) : roundAway (q : K) = roundAway q := by
  have hfloor : ⌊(q : K) + 1 / 2⌋ = ⌊q + 1 / 2⌋ := by
    rw [← Rat.floor_cast (α := K) (q + 1 / 2)]
    push_cast
    rfl
  have hceil : ⌈(q : K) - 1 / 2⌉ = ⌈q - 1 / 2⌉ := by
    rw [← Rat.ceil_cast (α := K) (q - 1 / 2)]
    push_cast
    rfl
  simp only [roundAway, hfloor, hceil, Rat.cast_nonneg]

theorem wholePart_ratCast (q : ℚ) : wholePart (q : K) = wholePart q := by
  simp only [wholePart, Rat.floor_cast, Rat.ceil_cast, Rat.cast_nonneg]

end Rounding

/-- The real number that a decimal text denotes. -/
noncomputable def Decimal.value (d : Decimal) : ℝ :=
  (if d.negative then -1 else 1) * d.digits * (10 : ℝ) ^ d.exponent

/-- A coordinate type whose members are real numbers and whose operations are
exact. -/
class ExactScalar (α : Type) [Scalar α] where
  /-- The real number that a coordinate is. -/
  value : α → ℝ
  /-- There is one coordinate for a number at most. -/
  value_injective : Function.Injective value
  /-- Sums are exact. -/
  value_add (a b : α) : value (a + b) = value a + value b
  /-- Differences are exact. -/
  value_sub (a b : α) : value (a - b) = value a - value b
  /-- Products are exact. -/
  value_mul (a b : α) : value (a * b) = value a * value b
  /-- Quotients are exact. -/
  value_div (a b : α) : value b ≠ 0 → value (a / b) = value a / value b
  /-- Opposites are exact. -/
  value_neg (a : α) : value (-a) = -value a
  /-- The strict order is that of the numbers. -/
  lt_iff (a b : α) : a < b ↔ value a < value b
  /-- The order is that of the numbers. -/
  le_iff (a b : α) : a ≤ b ↔ value a ≤ value b
  /-- The Boolean comparison is equality. -/
  beq_iff (a b : α) : (a == b) = true ↔ a = b
  /-- Every whole number is a coordinate. -/
  value_ofInt (n : ℤ) : value (Scalar.ofInt n) = n
  /-- Every decimal number is a coordinate. -/
  value_ofDecimal (d : Decimal) : value (Scalar.ofDecimal d) = d.value
  /-- Rounding down. -/
  value_floor (a : α) : value (Scalar.floor a) = ⌊value a⌋
  /-- Rounding up. -/
  value_ceil (a : α) : value (Scalar.ceil a) = ⌈value a⌉
  /-- Rounding to the nearest whole number. -/
  value_round (a : α) : value (Scalar.round a) = roundAway (value a)
  /-- The whole part. -/
  truncate_eq (a : α) : Scalar.truncate a = wholePart (value a)
  /-- The remainder of truncated division. -/
  value_remainder (a b : α) : value b ≠ 0 →
    value (Scalar.remainder a b) = value a - value b * wholePart (value a / value b)
  /-- Every coordinate is an ordinary number. -/
  isFinite_eq (a : α) : Scalar.isFinite a = true
  /-- A hypotenuse that is a coordinate is found. -/
  hypot_eq (a b c : α) : 0 ≤ value c → value c ^ 2 = value a ^ 2 + value b ^ 2 →
    Scalar.hypot a b = c
  /-- A number is written from its exact value. -/
  fixed_eq (places : ℕ) (a : α) (num den : ℕ) : 0 < den → |value a| = num / den →
    Scalar.fixed places a = fixedText places (decide (value a < 0)) num den

/-! ### Calculating -/

namespace ExactScalar

open Scalar

variable {α : Type} [Scalar α] [ExactScalar α]

attribute [simp] value_add value_sub value_mul value_neg value_ofInt value_floor value_ceil
  value_round

@[simp] theorem value_literal (n : ℕ) :
    value (no_index (@OfNat.ofNat α n (instOfNat n))) = n := by
  rw [← Int.cast_natCast]
  exact value_ofInt (n : ℤ)

theorem value_zero : value (0 : α) = 0 := by simp

theorem value_one : value (1 : α) = 1 := by simp

theorem value_two : value (2 : α) = 2 := by simp

theorem value_half (a : α) : value (a / 2) = value a / 2 := by
  rw [value_div _ _ (by simp), value_two]

@[simp] theorem value_decimal (digits places : ℕ) :
    value (OfScientific.ofScientific digits true places : α) = digits / 10 ^ places := by
  refine (value_ofDecimal _).trans ?_
  simp only [Decimal.value, Bool.false_eq_true, if_false, if_true, one_mul, zpow_neg,
    zpow_natCast, div_eq_mul_inv]

@[simp] theorem value_abs (a : α) : value (Scalar.abs a) = |value a| := by
  unfold Scalar.abs
  simp only [lt_iff, value_ofInt, Int.cast_zero]
  split
  · next h => rw [value_neg, abs_of_neg h]
  · next h => rw [abs_of_nonneg (not_lt.1 h)]

theorem beq_self (a : α) : (a == a) = true := (beq_iff a a).2 rfl

@[simp] theorem value_max (a b : α) : value (Scalar.max a b) = Max.max (value a) (value b) := by
  unfold Scalar.max
  simp only [lt_iff, beq_self, if_true]
  split
  · next h => rw [max_eq_right h.le]
  · next h => rw [max_eq_left (not_lt.1 h)]

@[simp] theorem value_min (a b : α) : value (Scalar.min a b) = Min.min (value a) (value b) := by
  unfold Scalar.min
  simp only [lt_iff, beq_self, if_true]
  split
  · next h => rw [min_eq_right h.le]
  · next h => rw [min_eq_left (not_lt.1 h)]

/-- The largest of some numbers is no smaller than any of them. -/
theorem le_foldl_max {β : Type} (f : β → α) (xs : List β) (m : α) :
    value m ≤ value (xs.foldl (fun m x => Scalar.max m (f x)) m) ∧
      ∀ x ∈ xs, value (f x) ≤ value (xs.foldl (fun m x => Scalar.max m (f x)) m) := by
  induction xs generalizing m with
  | nil => exact ⟨le_rfl, fun x hx => absurd hx List.not_mem_nil⟩
  | cons x xs ih =>
    obtain ⟨hkept, hmem⟩ := ih (Scalar.max m (f x))
    rw [value_max] at hkept
    refine ⟨(le_max_left _ _).trans hkept, fun y hy => ?_⟩
    rcases List.mem_cons.1 hy with rfl | hy
    · exact (le_max_right _ _).trans hkept
    · exact hmem y hy

/-- The largest of some numbers is one of them, or the one that it is found from. -/
theorem foldl_max_mem {β : Type} (f : β → α) (xs : List β) (m : α) :
    xs.foldl (fun m x => Scalar.max m (f x)) m ∈ m :: xs.map f := by
  induction xs generalizing m with
  | nil => exact List.mem_cons_self
  | cons x xs ih =>
    have hmax : Scalar.max m (f x) = m ∨ Scalar.max m (f x) = f x := by
      unfold Scalar.max
      rw [beq_self, if_pos rfl]
      split
      · exact .inr rfl
      · exact .inl rfl
    rw [List.foldl_cons, List.map_cons]
    rcases List.mem_cons.1 (ih (Scalar.max m (f x))) with h | h
    · rw [h]
      rcases hmax with h | h
      · exact List.mem_cons.2 (.inl h)
      · exact List.mem_cons_of_mem _ (List.mem_cons.2 (.inl h))
    · exact List.mem_cons_of_mem _ (List.mem_cons_of_mem _ h)

end ExactScalar

/-! ### The rational numbers -/

/-- The rational number of a decimal text without its sign. -/
def Decimal.magnitude (d : Decimal) : ℚ :=
  if 0 ≤ d.exponent then (d.digits * 10 ^ d.exponent.toNat : ℕ)
  else mkRat d.digits (10 ^ (-d.exponent).toNat)

/-- The rational number that a decimal text denotes. -/
def Decimal.toRat (d : Decimal) : ℚ := if d.negative then -d.magnitude else d.magnitude

/-- Rational coordinates.  Angles are not measured on them. -/
instance instScalarRat : Scalar ℚ where
  decLt := inferInstance
  decLe := inferInstance
  ofInt n := n
  ofNumber
    | .finite d => d.toRat
    | _ => 0
  floor q := (⌊q⌋ : ℤ)
  ceil q := (⌈q⌉ : ℤ)
  round q := (roundAway q : ℤ)
  truncate q := wholePart q
  remainder a b := a - b * (wholePart (a / b) : ℤ)
  isFinite _ := true
  hypot a b := Rat.sqrt (a * a + b * b)
  sin _ := 0
  cos _ := 1
  atan2 _ _ := 0
  pi := 3
  fixed places q := fixedText places (decide (q < 0)) q.num.natAbs q.den
  shortest q := trimFraction (fixedText 18 (decide (q < 0)) q.num.natAbs q.den)

theorem Decimal.cast_magnitude (d : Decimal) :
    (d.magnitude : ℝ) = d.digits * (10 : ℝ) ^ d.exponent := by
  unfold magnitude
  split
  · next h =>
    push_cast
    rw [← zpow_natCast, Int.toNat_of_nonneg h]
  · next h =>
    rw [Rat.mkRat_eq_div]
    push_cast
    rw [← zpow_natCast, Int.toNat_of_nonneg (by omega), zpow_neg, div_inv_eq_mul]

theorem Decimal.cast_toRat (d : Decimal) : (d.toRat : ℝ) = d.value := by
  unfold toRat value
  split
  · rw [Rat.cast_neg, cast_magnitude]
    ring
  · rw [cast_magnitude]
    ring

/-- A fixed count of decimal places depends on the quotient only. -/
theorem roundDiv_mul (k num den : ℕ) (hk : 0 < k) :
    roundDiv (k * num) (k * den) = roundDiv num den := by
  have hlt : 2 * (k * (num % den)) < k * den ↔ 2 * (num % den) < den := by
    rw [Nat.mul_left_comm]
    exact Nat.mul_lt_mul_left hk
  have hgt : k * den < 2 * (k * (num % den)) ↔ den < 2 * (num % den) := by
    rw [Nat.mul_left_comm]
    exact Nat.mul_lt_mul_left hk
  simp only [roundDiv, Nat.mul_div_mul_left _ _ hk, Nat.mul_mod_mul_left, hlt, hgt]

theorem fixedText_mul (places : ℕ) (negative : Bool) (k num den : ℕ) (hk : 0 < k) :
    fixedText places negative (k * num) (k * den) = fixedText places negative num den := by
  simp only [fixedText, Nat.mul_assoc, roundDiv_mul k _ _ hk]

/-- The rational numbers calculate exactly. -/
noncomputable instance instExactScalarRat : ExactScalar ℚ where
  value q := q
  value_injective := Rat.cast_injective
  value_add := Rat.cast_add
  value_sub := Rat.cast_sub
  value_mul := Rat.cast_mul
  value_div a b _ := Rat.cast_div a b
  value_neg := Rat.cast_neg
  lt_iff _ _ := Rat.cast_lt.symm
  le_iff _ _ := Rat.cast_le.symm
  beq_iff _ _ := beq_iff_eq
  value_ofInt := Rat.cast_intCast
  value_ofDecimal := Decimal.cast_toRat
  value_floor q := by rw [Rat.floor_cast]; exact Rat.cast_intCast _
  value_ceil q := by rw [Rat.ceil_cast]; exact Rat.cast_intCast _
  value_round q := by rw [roundAway_ratCast]; exact Rat.cast_intCast _
  truncate_eq q := (wholePart_ratCast q).symm
  value_remainder a b _ := by
    rw [← Rat.cast_div, wholePart_ratCast, ← Rat.cast_intCast, ← Rat.cast_mul, ← Rat.cast_sub]
    rfl
  isFinite_eq _ := rfl
  hypot_eq a b c hc h := by
    have hsquare : c * c = a * a + b * b := by
      have h' : ((c ^ 2 : ℚ) : ℝ) = ((a ^ 2 + b ^ 2 : ℚ) : ℝ) := by
        push_cast
        exact h
      have := Rat.cast_injective h'
      rwa [sq, sq, sq] at this
    have hroot := Rat.sqrt_eq c
    rw [hsquare, abs_of_nonneg (Rat.cast_nonneg.1 hc)] at hroot
    exact hroot
  fixed_eq places q num den hden h := by
    have hsign : decide ((q : ℝ) < 0) = decide (q < 0) := by
      simp only [Rat.cast_lt_zero]
    -- The given quotient is the reduced one, extended by some factor.
    have hquotient : q.num.natAbs * den = num * q.den := by
      have habs : |q| = (num : ℚ) / den := by
        have h' : ((|q| : ℚ) : ℝ) = (((num : ℚ) / den : ℚ) : ℝ) := by
          push_cast
          exact h
        exact Rat.cast_injective h'
      have hq : |q| = (q.num.natAbs : ℚ) / q.den := by
        rw [Rat.abs_def, Rat.divInt_eq_div]
        push_cast
        rw [Nat.cast_natAbs, Int.cast_abs]
      rw [hq, div_eq_div_iff (Nat.cast_ne_zero.2 q.den_ne_zero)
        (Nat.cast_ne_zero.2 hden.ne')] at habs
      exact_mod_cast habs
    have hreduced : Nat.Coprime q.den q.num.natAbs := q.reduced.symm
    obtain ⟨k, hk⟩ : q.den ∣ den :=
      hreduced.dvd_of_dvd_mul_left ⟨num, by rw [hquotient, Nat.mul_comm]⟩
    have hnum : num = k * q.num.natAbs := by
      refine Nat.eq_of_mul_eq_mul_right q.den_pos ?_
      rw [← hquotient, hk]
      ring
    have hkpos : 0 < k := Nat.pos_of_ne_zero fun h0 => by simp [hk, h0] at hden
    rw [hsign, hnum, hk, Nat.mul_comm q.den k, fixedText_mul _ _ _ _ _ hkpos]
    rfl

/-- The rational numbers with a large one in the place of infinity. -/
def WideRat : Type := ℚ

instance instScalarWideRat : Scalar WideRat :=
  { (instScalarRat : Scalar WideRat) with
    ofNumber := fun
      | .infinite negative => (if negative then -10 ^ 30 else 10 ^ 30 : ℚ)
      | x => instScalarRat.ofNumber x }

noncomputable instance instExactScalarWideRat : ExactScalar WideRat where
  value := instExactScalarRat.value
  value_injective := instExactScalarRat.value_injective
  value_add := instExactScalarRat.value_add
  value_sub := instExactScalarRat.value_sub
  value_mul := instExactScalarRat.value_mul
  value_div := instExactScalarRat.value_div
  value_neg := instExactScalarRat.value_neg
  lt_iff := instExactScalarRat.lt_iff
  le_iff := instExactScalarRat.le_iff
  beq_iff := instExactScalarRat.beq_iff
  value_ofInt := instExactScalarRat.value_ofInt
  value_ofDecimal := instExactScalarRat.value_ofDecimal
  value_floor := instExactScalarRat.value_floor
  value_ceil := instExactScalarRat.value_ceil
  value_round := instExactScalarRat.value_round
  truncate_eq := instExactScalarRat.truncate_eq
  value_remainder := instExactScalarRat.value_remainder
  isFinite_eq := instExactScalarRat.isFinite_eq
  hypot_eq := instExactScalarRat.hypot_eq
  fixed_eq := instExactScalarRat.fixed_eq

end Schematic
