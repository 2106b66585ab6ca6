import Mathlib.Data.Nat.Digits.Defs
import Schematic.Number.Binary64.Coordinate
import Schematic.Proofs.Number.Exact
import Schematic.Proofs.SExpr.Plain

/-!
# The texts of numbers

A number is written in decimal digits with at most a sign and a point, or as an
infinity; each of these is one word, and none is the head of a short record.
This holds of the floating-point numbers that the program draws with and of the
rational numbers.

## Main definitions

* `SExpr.IsNumeral` — a text of digits, signs and points.

## Main statements

* `SExpr.isNumeral_fixedText` — numbers with a fixed count of places.
* `SExpr.instPlainNumbersFloat`, `SExpr.instPlainNumbersRat` — numbers are
  written plainly.
-/

namespace Schematic.SExpr

/-- The characters of a number in decimal. -/
def isNumeralChar (c : Char) : Bool := c.isDigit || c == '-' || c == '.'

/-- A text of digits, signs and points, and not an empty one. -/
def IsNumeral (s : String) : Prop := s.toList ≠ [] ∧ ∀ c ∈ s.toList, isNumeralChar c = true

instance instDecidableIsNumeral (s : String) : Decidable (IsNumeral s) :=
  decidable_of_iff (s.toList ≠ [] ∧ s.toList.all isNumeralChar = true)
    (and_congr_right' List.all_eq_true)

theorem isBareChar_of_isDigit {c : Char} (h : c.isDigit = true) : isBareChar c = true := by
  have hrange : 48 ≤ c.toNat ∧ c.toNat ≤ 57 := by
    simp only [Char.isDigit, Bool.and_eq_true, decide_eq_true_eq, ge_iff_le,
      UInt32.le_iff_toNat_le] at h
    exact h
  have hne : ∀ d : Char, ¬(48 ≤ d.toNat ∧ d.toNat ≤ 57) → c ≠ d := fun d hd hcd =>
    hd (hcd ▸ hrange)
  have hblank : isBlank c = false := by
    simp only [isBlank, Bool.or_eq_false_iff, Bool.and_eq_false_iff, decide_eq_false_iff_not,
      beq_eq_false_iff_ne]
    omega
  simp only [isBareChar, hblank, Bool.not_false, Bool.true_and, Bool.and_eq_true, bne_iff_ne]
  exact ⟨⟨hne '(' (by decide), hne ')' (by decide)⟩, hne '"' (by decide)⟩

theorem isBareChar_of_isNumeralChar {c : Char} (h : isNumeralChar c = true) :
    isBareChar c = true := by
  simp only [isNumeralChar, Bool.or_eq_true, beq_iff_eq] at h
  rcases h with (h | rfl) | rfl
  · exact isBareChar_of_isDigit h
  · decide
  · decide

theorem IsNumeral.isWord {s : String} (h : IsNumeral s) : IsWord s.toList :=
  ⟨h.1, fun c hc => isBareChar_of_isNumeralChar (h.2 c hc)⟩

/-- A record does not start with a number. -/
theorem IsNumeral.notMem_inlineHeads {s : String} (h : IsNumeral s) : s ∉ inlineHeads := by
  have hheads : inlineHeads.all (fun head => !head.toList.all isNumeralChar) = true := by decide
  intro hs
  have hletter := List.all_eq_true.1 hheads s hs
  rw [Bool.not_eq_true', ← Bool.not_eq_true, List.all_eq_true] at hletter
  exact hletter h.2

theorem isNumeralChar_of_mem_toDigits {n : Nat} {c : Char} (h : c ∈ Nat.toDigits 10 n) :
    isNumeralChar c = true := by
  rw [isNumeralChar, Nat.isDigit_of_mem_toDigits (by omega) (by omega) h]
  rfl

/-- The digits before the point and the ones after it, with a sign in front. -/
theorem fixedText_toList {places : Nat} (hplaces : places ≠ 0) (negative : Bool)
    (num den : Nat) : ∃ (whole : Nat) (fraction : List Char),
      (∀ c ∈ fraction, isNumeralChar c = true) ∧ (fixedText places negative num den).toList =
        (if negative then ['-'] else []) ++ Nat.toDigits 10 whole ++ '.' :: fraction := by
  have hfraction : ∀ n, ∀ c ∈ paddedDigits places n, isNumeralChar c = true := by
    intro n c hc
    rcases List.mem_append.1 hc with hc | hc
    · rw [List.eq_of_mem_replicate hc]
      rfl
    · exact isNumeralChar_of_mem_toDigits hc
  let units := roundDiv (num * tenPow places) den
  refine ⟨units / tenPow places, paddedDigits places (units % tenPow places), hfraction _, ?_⟩
  have hsign : (if negative then "-" else "").toList = if negative then ['-'] else [] := by
    cases negative <;> rfl
  simp only [fixedText, if_neg hplaces, String.toList_append, hsign, digitText,
    String.toList_ofList, List.append_assoc]
  rfl

/-- Without its trailing zeros a number with a fraction is still one: the digits
before the point stay. -/
theorem isNumeral_trimFraction {sign whole fraction : List Char} {s : String}
    (hs : s.toList = sign ++ whole ++ '.' :: fraction) (hwhole : whole ≠ [])
    (hdigits : ∀ c ∈ whole, c ≠ '.') (hall : ∀ c ∈ s.toList, isNumeralChar c = true) :
    IsNumeral (trimFraction s) := by
  let front := '.' :: (sign ++ whole).reverse
  have hreverse : s.toList.reverse = fraction.reverse ++ front := by
    rw [hs, List.reverse_append, List.reverse_cons, List.append_assoc, List.singleton_append]
  have hkept : ∀ c ∈ front, c ∈ s.toList.reverse.dropWhile (· = '0') := by
    intro c hc
    rw [hreverse, List.dropWhile_append]
    split
    · rwa [List.dropWhile_cons_of_neg (by decide)]
    · exact List.mem_append_right _ hc
  unfold trimFraction IsNumeral
  simp only [String.toList_ofList, List.mem_reverse, ne_eq, List.reverse_eq_nil_iff]
  refine ⟨fun hnil => ?_, fun c hc => ?_⟩
  · obtain ⟨d, hd⟩ := List.exists_mem_of_ne_nil whole hwhole
    rw [List.dropWhile_eq_nil_iff] at hnil
    have hdot := hnil d (hkept d (by simp [front, hd]))
    exact hdigits d hd (of_decide_eq_true hdot)
  · exact hall c (List.mem_reverse.1
      ((List.dropWhile_suffix _).subset ((List.dropWhile_suffix _).subset hc)))

/-- A number with a fixed count of places is written in digits, also without its
trailing zeros. -/
theorem isNumeral_fixedText (places : Nat) (hplaces : places ≠ 0) (negative : Bool)
    (num den : Nat) : IsNumeral (trimFraction (fixedText places negative num den)) := by
  obtain ⟨whole, fraction, hfraction, htext⟩ := fixedText_toList hplaces negative num den
  refine isNumeral_trimFraction htext Nat.toDigits_ne_nil ?_ ?_
  · rintro c hc rfl
    exact absurd (Nat.isDigit_of_mem_toDigits (by omega) (by omega) hc) (by decide)
  · intro c hc
    rw [htext] at hc
    simp only [List.mem_append, List.mem_cons] at hc
    rcases hc with (hc | hc) | rfl | hc
    · cases negative with
      | true => rw [List.mem_singleton.1 hc]; rfl
      | false => exact absurd hc List.not_mem_nil
    · exact isNumeralChar_of_mem_toDigits hc
    · rfl
    · exact hfraction c hc

variable {α : Type} [Scalar α]

/-- Numbers are written plainly if those with four places are. -/
theorem plainNumbers_of_fixed
    (h : ∀ v : α, IsWord (trimFraction (Scalar.fixed 4 v)).toList ∧
      trimFraction (Scalar.fixed 4 v) ∉ inlineHeads) : PlainNumbers α := by
  have hzero : IsNumeral "0" := by decide
  have hnumber : ∀ v : α, IsWord (numberText v).toList ∧ numberText v ∉ inlineHeads := by
    intro v
    unfold numberText
    split
    · dsimp only
      split
      · exact ⟨hzero.isWord, hzero.notMem_inlineHeads⟩
      · exact h _
    · exact ⟨hzero.isWord, hzero.notMem_inlineHeads⟩
  exact ⟨fun v => (hnumber v).1, fun v => (hnumber v).2⟩

instance instPlainNumbersRat : PlainNumbers ℚ :=
  plainNumbers_of_fixed fun v =>
    have h := isNumeral_fixedText 4 (by omega) (decide (v < 0)) v.num.natAbs v.den
    ⟨h.isWord, h.notMem_inlineHeads⟩

/-- The numbers of the program are written plainly.  A number that four places
do not fit into any more is written as an infinity. -/
instance instPlainNumbersFloat : PlainNumbers Float := by
  refine plainNumbers_of_fixed fun v => ?_
  change IsWord (trimFraction (Binary64.fixed 4 v)).toList ∧
    trimFraction (Binary64.fixed 4 v) ∉ inlineHeads
  unfold Binary64.fixed
  split
  · next negative m e _ =>
    have h := isNumeral_fixedText 4 (by omega) negative (Binary64.ratio m e).1
      (Binary64.ratio m e).2
    exact ⟨h.isWord, h.notMem_inlineHeads⟩
  · next negative _ => cases negative <;> decide
  · decide

end Schematic.SExpr
