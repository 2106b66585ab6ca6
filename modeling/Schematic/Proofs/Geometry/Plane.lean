import Mathlib
import Schematic.Geometry.Basic
import Schematic.Proofs.Number.Exact

/-!
# Points, boxes and lines of the plane

With exact coordinates a point of the sheet is a point of the complex plane, a line
is a segment and a box has an interior.  The comparisons that the checks make are
those of the plane as long as lines are horizontal or vertical.

## Main definitions

* `Point.complex`, `Rect.inside` — a point as a complex number, the interior of a
  box.
* `Straight` — the ends of a horizontal or vertical line that has a length.

## Main statements

* `onSegment_of_mem` — a point of a straight line is on it within every tolerance.
* `Rect.crossedBy_of_mem` — a straight line with a point inside a box crosses it.
-/

namespace Schematic

open ExactScalar
open scoped Scalar

variable {α : Type} [Scalar α] [ExactScalar α] {a b p : Point α}

/-- A point of the sheet as a point of the plane. -/
def Point.complex (p : Point α) : ℂ := ⟨value p.x, value p.y⟩

/-- The points strictly inside a box. -/
def Rect.inside (r : Rect α) : Set ℂ :=
  Set.Ioo (value r.x) (value r.right) ×ℂ Set.Ioo (value r.y) (value r.bottom)

theorem value_sorted2 (u v : α) : value (sorted2 u v).1 = min (value u) (value v) ∧
    value (sorted2 u v).2 = max (value u) (value v) := by
  unfold sorted2
  split
  · next h => exact ⟨(min_eq_left ((le_iff u v).1 h)).symm, (max_eq_right ((le_iff u v).1 h)).symm⟩
  · next h =>
    have hle : value v ≤ value u := le_of_not_ge fun h' => h ((le_iff u v).2 h')
    exact ⟨(min_eq_right hle).symm, (max_eq_left hle).symm⟩

/-- The ends of a horizontal or vertical line whose length is not negligible. -/
def Straight (a b : Point α) : Prop :=
  (a.y = b.y ∧ (1e-9 : α) ≤ Scalar.abs (b.x - a.x)) ∨
    (a.x = b.x ∧ (1e-9 : α) ≤ Scalar.abs (b.y - a.y))

omit [Scalar α] [ExactScalar α] in
/-- The points of a line parallel to an axis. -/
theorem segment_eq_reProdIm {z w : ℂ} (h : z.im = w.im ∨ z.re = w.re) :
    segment ℝ z w = Set.uIcc z.re w.re ×ℂ Set.uIcc z.im w.im := by
  have hpairs : segment ℝ (z.re, z.im) (w.re, w.im) = Set.uIcc z.re w.re ×ˢ Set.uIcc z.im w.im := by
    rcases h with him | hre
    · rw [him, ← Prod.image_mk_segment_left, segment_eq_uIcc, Set.uIcc_self, Set.prod_singleton]
    · rw [hre, ← Prod.image_mk_segment_right, segment_eq_uIcc, Set.uIcc_self, Set.singleton_prod]
  let f := Complex.equivRealProdLm
  have himage : f '' segment ℝ z w = segment ℝ (f z) (f w) :=
    image_segment ℝ f.toLinearMap.toAffineMap z w
  ext p
  rw [← f.injective.mem_set_image, himage]
  exact Set.ext_iff.1 hpairs (p.re, p.im)

/-- A straight line has all the points that lie between its ends on both axes. -/
theorem Straight.segment_eq (h : Straight a b) : segment ℝ a.complex b.complex =
    Set.uIcc (value a.x) (value b.x) ×ℂ Set.uIcc (value a.y) (value b.y) :=
  segment_eq_reProdIm (h.imp (fun h => congrArg value h.1) fun h => congrArg value h.1)

/-- The length of a straight line is computed, and it is not negligible. -/
theorem Straight.exists_hypot (h : Straight a b) : ∃ length : α,
    Scalar.hypot (b.x - a.x) (b.y - a.y) = length ∧ 1 / 10 ^ 9 ≤ value length := by
  rcases h with ⟨hy, hlen⟩ | ⟨hx, hlen⟩
  · refine ⟨Scalar.abs (b.x - a.x), hypot_eq _ _ _ ?_ ?_, ?_⟩
    · simp
    · simp [hy]
    · simpa [le_iff] using hlen
  · refine ⟨Scalar.abs (b.y - a.y), hypot_eq _ _ _ ?_ ?_, ?_⟩
    · simp
    · simp [hx]
    · simpa [le_iff] using hlen

/-- A point of a straight line is on it, within every tolerance. -/
theorem onSegment_of_mem {tol : α} (h : Straight a b) (htol : 0 ≤ value tol)
    (hp : p.complex ∈ segment ℝ a.complex b.complex) : onSegment p a b tol = true := by
  obtain ⟨length, hlength, hlong⟩ := h.exists_hypot
  rw [h.segment_eq] at hp
  obtain ⟨⟨hx0, hx1⟩, hy0, hy1⟩ : (_ ∧ _) ∧ _ ∧ _ := hp
  change min _ _ ≤ value p.x at hx0
  change value p.x ≤ max _ _ at hx1
  change min _ _ ≤ value p.y at hy0
  change value p.y ≤ max _ _ at hy1
  -- the point is inside the box around the line
  have hbox : ¬((p.x < (sorted2 a.x b.x).1 - tol ∨ (sorted2 a.x b.x).2 + tol < p.x) ∨
      p.y < (sorted2 a.y b.y).1 - tol) ∧ ¬(sorted2 a.y b.y).2 + tol < p.y := by
    simp only [lt_iff, value_sub, value_add, value_sorted2]
    constructor
    · rintro ((h | h) | h) <;> linarith
    · intro h
      linarith
  -- on a horizontal or vertical line it is at no distance from it
  have hcross : value ((p.x - a.x) * (b.y - a.y) - (p.y - a.y) * (b.x - a.x)) = 0 := by
    rcases h with ⟨hy, -⟩ | ⟨hx, -⟩
    · have hpy : value p.y = value b.y := by
        rw [hy, min_self] at hy0
        rw [hy, max_self] at hy1
        exact le_antisymm hy1 hy0
      simp [hy, hpy]
    · have hpx : value p.x = value b.x := by
        rw [hx, min_self] at hx0
        rw [hx, max_self] at hx1
        exact le_antisymm hx1 hx0
      simp [hx, hpx]
  have hpos : 0 < value length := lt_of_lt_of_le (by norm_num) hlong
  have hshort : ¬length < (1e-12 : α) := by
    rw [lt_iff, value_decimal, not_lt]
    refine le_trans ?_ hlong
    norm_num
  have hdist : Scalar.abs ((p.x - a.x) * (b.y - a.y) - (p.y - a.y) * (b.x - a.x)) / length
      ≤ tol := by
    rw [le_iff, value_div _ _ hpos.ne', value_abs, hcross]
    simpa using htol
  simp only [onSegment, Bool.or_eq_true, decide_eq_true_eq]
  rw [if_neg (by tauto), hlength, if_neg hshort]
  exact decide_eq_true hdist

/-- A straight line with a point strictly inside a box crosses it. -/
theorem Rect.crossedBy_of_mem {r : Rect α} (h : Straight a b) {q : ℂ}
    (hq : q ∈ segment ℝ a.complex b.complex) (hr : q ∈ r.inside) : r.crossedBy a b = true := by
  rw [h.segment_eq] at hq
  obtain ⟨⟨hx0, hx1⟩, hy0, hy1⟩ : (_ ∧ _) ∧ _ ∧ _ := hq
  obtain ⟨⟨hl, hr'⟩, ht, hb⟩ : (_ ∧ _) ∧ _ ∧ _ := hr
  have hnear : ∀ u v : α, u = v → Scalar.abs (u - v) < (1e-9 : α) := by
    rintro u v rfl
    simp [lt_iff]
  rcases h with ⟨hy, -⟩ | ⟨hx, hlen⟩
  · rw [hy, min_self] at hy0
    rw [hy, max_self] at hy1
    have hqy : q.im = value b.y := le_antisymm hy1 hy0
    rw [crossedBy, if_pos (hnear _ _ hy)]
    simp only [Bool.and_eq_true, decide_eq_true_eq, lt_iff, value_sorted2, hy]
    refine ⟨⟨⟨?_, ?_⟩, ?_⟩, ?_⟩
    · exact hqy ▸ ht
    · exact hqy ▸ hb
    · exact lt_of_le_of_lt hx0 hr'
    · exact lt_of_lt_of_le hl hx1
  · have hfar : ¬Scalar.abs (a.y - b.y) < (1e-9 : α) := by
      rw [lt_iff, value_abs, value_sub, abs_sub_comm, ← value_sub, ← value_abs, ← lt_iff]
      rw [lt_iff, not_lt]
      exact (le_iff _ _).1 hlen
    rw [hx, min_self] at hx0
    rw [hx, max_self] at hx1
    have hqx : q.re = value b.x := le_antisymm hx1 hx0
    rw [crossedBy, if_neg hfar, if_pos (hnear _ _ hx)]
    simp only [Bool.and_eq_true, decide_eq_true_eq, lt_iff, value_sorted2, hx]
    refine ⟨⟨⟨?_, ?_⟩, ?_⟩, ?_⟩
    · exact hqx ▸ hl
    · exact hqx ▸ hr'
    · exact lt_of_le_of_lt hy0 hb
    · exact lt_of_lt_of_le ht hy1

end Schematic
