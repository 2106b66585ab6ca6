import Schematic.Proofs.Geometry.Turns

/-!
# Boxes and their points

A box of no negative size is known by its points, and the smallest box around two boxes is
the least one that has the points of both.  A placement by quarter turns can be undone: it
keeps which box lies in which, both ways.  So it takes the smallest box around two boxes to
the smallest box around the placed ones.

## Main definitions

* `Placement.back` — the placement that undoes another one.

## Main statements

* `Rect.region_subset_iff` — a box in a box.
* `Rect.eq_of_region_eq` — boxes with the same points.
* `Rect.region_union_subset` — the smallest box around two boxes.
* `Rect.placeBox_back` — what is placed and placed back is what it was.
* `Rect.region_placeBox_subset_iff` — placing keeps which box lies in which.
* `Rect.placeBox_union` — placing keeps the smallest box around two boxes.
-/

namespace Schematic

open ExactScalar Complex
open scoped Scalar

variable {α : Type} [Scalar α] [ExactScalar α]

namespace Rect

variable {r s t : Rect α}

/-! ### The points of a box -/

instance (r : Rect ℚ) : Decidable r.Proper :=
  decidable_of_iff (0 ≤ r.w ∧ 0 ≤ r.h)
    ⟨fun h => ⟨Rat.cast_nonneg.2 h.1, Rat.cast_nonneg.2 h.2⟩,
      fun h => ⟨Rat.cast_nonneg.1 h.width, Rat.cast_nonneg.1 h.height⟩⟩

/-- The test for a point in a box, its edges being part of it. -/
theorem contains_iff {p : Point α} : r.contains p = true ↔ p.complex ∈ r.region := by
  simp only [contains, Bool.and_eq_true, decide_eq_true_eq, le_iff, mem_region, Point.complex,
    and_assoc]

/-- A box lies in another one when none of its edges lies beyond that of the other one. -/
theorem region_subset_iff (hr : r.Proper) : r.region ⊆ s.region ↔
    (value s.x ≤ value r.x ∧ value r.right ≤ value s.right) ∧
      value s.y ≤ value r.y ∧ value r.bottom ≤ value s.bottom := by
  have hw := hr.left_le_right
  have hh := hr.top_le_bottom
  constructor
  · intro h
    -- two opposite corners show it
    have hleast : (⟨value r.x, value r.y⟩ : ℂ) ∈ s.region :=
      h (mem_region.2 ⟨⟨le_rfl, hw⟩, le_rfl, hh⟩)
    have hgreatest : (⟨value r.right, value r.bottom⟩ : ℂ) ∈ s.region :=
      h (mem_region.2 ⟨⟨hw, le_rfl⟩, hh, le_rfl⟩)
    rw [mem_region] at hleast hgreatest
    exact ⟨⟨hleast.1.1, hgreatest.1.2⟩, hleast.2.1, hgreatest.2.2⟩
  · rintro ⟨⟨hx, hright⟩, hy, hbottom⟩ z hz
    rw [mem_region] at hz ⊢
    obtain ⟨⟨hzx, hzright⟩, hzy, hzbottom⟩ := hz
    exact ⟨⟨hx.trans hzx, hzright.trans hright⟩, hy.trans hzy, hzbottom.trans hbottom⟩

/-- Boxes with the same points are the same. -/
theorem eq_of_region_eq (hr : r.Proper) (hs : s.Proper) (h : r.region = s.region) : r = s := by
  obtain ⟨⟨hx, hright⟩, hy, hbottom⟩ := (region_subset_iff hr).1 h.subset
  obtain ⟨⟨hx', hright'⟩, hy', hbottom'⟩ := (region_subset_iff hs).1 h.superset
  have hleft : r.x = s.x := value_injective (le_antisymm hx' hx)
  have htop : r.y = s.y := value_injective (le_antisymm hy' hy)
  have hwidth : r.w = s.w := by
    apply value_injective
    have hedge := le_antisymm hright hright'
    rw [value_right, value_right, hleft] at hedge
    exact add_left_cancel hedge
  have hheight : r.h = s.h := by
    apply value_injective
    have hedge := le_antisymm hbottom hbottom'
    rw [value_bottom, value_bottom, htop] at hedge
    exact add_left_cancel hedge
  cases r
  cases s
  cases hleft
  cases htop
  cases hwidth
  cases hheight
  rfl

/-- A box that has the points of two boxes has those of the smallest box around them. -/
theorem region_union_subset (hr : r.Proper) (hs : s.Proper) (hrt : r.region ⊆ t.region)
    (hst : s.region ⊆ t.region) : (r.union s).region ⊆ t.region := by
  obtain ⟨⟨hx, hright⟩, hy, hbottom⟩ := (region_subset_iff hr).1 hrt
  obtain ⟨⟨hx', hright'⟩, hy', hbottom'⟩ := (region_subset_iff hs).1 hst
  rw [region_subset_iff (hr.union s)]
  simp only [value_union]
  exact ⟨⟨le_min hx hx', max_le hright hright'⟩, le_min hy hy', max_le hbottom hbottom'⟩

end Rect

/-! ### Placing and placing back -/

namespace Placement

variable {p : Placement α}

/-- The placement that undoes another one: the sheet as it is seen from there. -/
def back (p : Placement α) : Placement α := p.localize origin

theorem Square.back (hp : p.Square) : p.back.Square := hp.localize square_origin

theorem move_move_back (hp : p.Square) (z : ℂ) : p.move (p.back.move z) = z := by
  rw [← move_compose hp hp.back, back, move_compose_localize hp square_origin, move_origin]

end Placement

namespace Rect

variable {r s : Rect α} {p : Placement α}

/-- A box that is placed back and then placed is what it was. -/
theorem placeBox_back (hr : r.Proper) (hp : p.Square) : placeBox (placeBox r p.back) p = r := by
  have hback := proper_placeBox r p.back
  apply eq_of_region_eq (proper_placeBox _ p) hr
  rw [region_placeBox hback hp, region_placeBox hr hp.back, Set.image_image]
  simp only [Placement.move_move_back hp, Set.image_id']

/-- One placed box lies in another one exactly when it did before they were placed. -/
theorem region_placeBox_subset_iff (hr : r.Proper) (hs : s.Proper) (hp : p.Square) :
    (placeBox r p).region ⊆ (placeBox s p).region ↔ r.region ⊆ s.region := by
  rw [region_placeBox hr hp, region_placeBox hs hp, Set.image_subset_image_iff p.move_injective]

/-- The smallest box around two boxes is placed where the smallest box around the placed ones
is. -/
theorem placeBox_union (hr : r.Proper) (hs : s.Proper) (hp : p.Square) :
    placeBox (r.union s) p = (placeBox r p).union (placeBox s p) := by
  have hunion : (r.union s).Proper := hr.union s
  have haround : ((placeBox r p).union (placeBox s p)).Proper := (proper_placeBox r p).union _
  -- placed back, the box around the placed boxes lies around the boxes themselves
  have hback := proper_placeBox ((placeBox r p).union (placeBox s p)) p.back
  apply eq_of_region_eq (proper_placeBox _ p) haround
  apply Set.Subset.antisymm
  · rw [← placeBox_back haround hp, region_placeBox_subset_iff hunion hback hp]
    apply region_union_subset hr hs
    · rw [← region_placeBox_subset_iff hr hback hp, placeBox_back haround hp]
      exact region_subset_union_left _ _
    · rw [← region_placeBox_subset_iff hs hback hp, placeBox_back haround hp]
      exact region_subset_union_right _ _
  · apply region_union_subset (proper_placeBox r p) (proper_placeBox s p)
    · rw [region_placeBox_subset_iff hr hunion hp]
      exact region_subset_union_left r s
    · rw [region_placeBox_subset_iff hs hunion hp]
      exact region_subset_union_right r s

end Rect

end Schematic
