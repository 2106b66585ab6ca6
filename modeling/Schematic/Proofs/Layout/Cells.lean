import Schematic.Proofs.Layout.Grid

/-!
# The cells of a grid

When every box is dealt once, a grid is no larger than it has to be: no column and no
line is empty, so each is exactly as large as the largest of its boxes, and two boxes
are never dealt into one cell.  The two axes are treated alike, as strips in which the
boxes lie centred.

## Main definitions

* `gridCell` — the cell of a box.
* `gridPlaced` — a box where the grid has it.
* `Aligned`, `dealt` — boxes in strips, seen along one axis.
* `Deals` — a grid whose cells are as large as they have to be.

## Main statements

* `aligned_strips` — what is dealt is aligned.
* `gridLayout_deals` — boxes of no negative size are dealt into such a grid.
-/

namespace Schematic

/-- The column and the line of a box; a line is filled before the next one is begun. -/
def gridCell (order : List ℕ) (i : ℕ) : ℕ × ℕ :=
  (order.idxOf i % (gridShape order.length).1, order.idxOf i / (gridShape order.length).1)

/-- Two boxes are not dealt into one cell. -/
theorem eq_of_gridCell_eq {order : List ℕ} {i j : ℕ} (hi : i ∈ order)
    (h : gridCell order i = gridCell order j) : i = j := by
  obtain ⟨hcolumn, hline⟩ := Prod.mk.inj h
  exact (List.idxOf_inj hi).1 (Nat.ext_div_mod hline hcolumn)

/-- No column of a grid is empty. -/
theorem exists_slot_column {n column : ℕ} (h : column < (gridShape n).1) :
    ∃ slot < n, slot % (gridShape n).1 = column :=
  ⟨column, h.trans_le (gridShape_le n), Nat.mod_eq_of_lt h⟩

/-- No line of a grid is empty. -/
theorem exists_slot_line {n line : ℕ} (h : line < (gridShape n).2) :
    ∃ slot < n, slot / (gridShape n).1 = line := by
  rcases Nat.eq_zero_or_pos n with rfl | hn
  · rw [gridShape_zero] at h
    exact absurd h (Nat.not_lt_zero _)
  · have hcols : 0 < (gridShape n).1 := one_le_gridShape hn
    refine ⟨(gridShape n).1 * line, ?_, Nat.mul_div_cancel_left line hcols⟩
    exact not_le.1 fun hle => h.not_ge ((ceilDiv_le_iff_le_mul hcols).2 hle)

variable {α : Type} [Scalar α]

/-- A box where the grid has it. -/
def gridPlaced (boxes : List (Rect α)) (order : List ℕ) (spacing : α) (i : Fin boxes.length) :
    Rect α :=
  let p := (gridLayout boxes order spacing).get
    (i.cast (length_gridLayout boxes order spacing).symm)
  (boxes.get i).translate p.x p.y

/-! ### One axis -/

variable [ExactScalar α]

open ExactScalar
open scoped Scalar

/-- Members that lie in strips along one axis: where each begins, and its size. -/
structure Aligned {ι : Type} (gap : ℝ) (strips : List (α × α)) (strip : ι → ℕ)
    (start size : ι → ℝ) : Prop where
  /-- Every member has a strip. -/
  strip_lt : ∀ i, strip i < strips.length
  /-- A strip is as large as the largest of its members. -/
  largest : ∀ k s, strips[k]? = some s → IsGreatest (size '' {i | strip i = k}) (value s.2)
  /-- A member lies in the middle of its strip. -/
  middle : ∀ i s, strips[strip i]? = some s → start i + size i / 2 = value s.1 + value s.2 / 2
  /-- No member begins before the first strip does. -/
  nonneg : ∀ i, 0 ≤ start i
  /-- Members of different strips are apart. -/
  apart : ∀ i j, strip i < strip j → start i + size i + gap ≤ start j

theorem isGreatest_of_insert_zero {S : Set ℝ} {m : ℝ} (h : IsGreatest (insert 0 S) m)
    (hS : S.Nonempty) (hnonneg : ∀ x ∈ S, 0 ≤ x) : IsGreatest S m := by
  refine ⟨?_, fun x hx => h.2 (.inr hx)⟩
  rcases h.1 with rfl | hm
  · obtain ⟨x, hx⟩ := hS
    rwa [← le_antisymm (h.2 (.inr hx)) (hnonneg x hx)]
  · exact hm

theorem value_stripMiddle {strips : List (α × α)} {k : ℕ} {s : α × α}
    (h : strips[k]? = some s) : value (stripMiddle strips k) = value s.1 + value s.2 / 2 := by
  rw [stripMiddle, h, value_add, value_half]

omit [ExactScalar α] in
theorem length_strips (gap : α) (count : ℕ) (slots : List (ℕ × α)) :
    (strips gap count slots).length = count := by
  simp [strips, stripSizes, stripStarts_length]

/-- The strips and the sizes of what is dealt in an order. -/
def dealt (place : ℕ → ℕ) (len : ℕ → α) (order : List ℕ) : List (ℕ × α) :=
  order.mapIdx fun slot i => (place slot, len i)

section Axis

variable {n count : ℕ} {order : List ℕ} {place : ℕ → ℕ} {len : ℕ → α} {gap : α}

/-- The sizes of the members of a strip. -/
theorem setOf_dealt (hperm : order.Perm (List.range n)) (k : ℕ) :
    {w | ∃ s ∈ dealt place len order, s.1 = k ∧ value s.2 = w} =
      (fun i : Fin n => value (len i)) '' {i : Fin n | place (order.idxOf i.val) = k} := by
  have hnodup : order.Nodup := hperm.nodup_iff.2 List.nodup_range
  ext w
  constructor
  · rintro ⟨s, hs, hk, hw⟩
    obtain ⟨slot, hslot, rfl⟩ := List.mem_mapIdx.1 hs
    have hi : order[slot] < n := List.mem_range.1 (hperm.mem_iff.1 (List.getElem_mem hslot))
    exact ⟨⟨order[slot], hi⟩, by rwa [Set.mem_ofPred_eq, hnodup.idxOf_getElem], hw⟩
  · rintro ⟨i, hk, hw⟩
    have hi : order.idxOf i.val < order.length :=
      List.idxOf_lt_length_of_mem (hperm.mem_iff.2 (List.mem_range.2 i.isLt))
    exact ⟨_, List.mem_mapIdx.2 ⟨order.idxOf i.val, hi, rfl⟩, hk, by rwa [List.getElem_idxOf]⟩

/-- A strip that has a member is as large as the largest of them. -/
theorem isGreatest_dealt (hperm : order.Perm (List.range n)) (hgap : 0 ≤ value gap)
    (honto : ∀ k < count, ∃ slot < n, place slot = k) (hlen : ∀ i < n, 0 ≤ value (len i))
    {k : ℕ} {s : α × α} (h : (strips gap count (dealt place len order))[k]? = some s) :
    0 ≤ value s.1 ∧ IsGreatest
      ((fun i : Fin n => value (len i)) '' {i : Fin n | place (order.idxOf i.val) = k})
      (value s.2) := by
  have hk : k < count := by
    rw [← length_strips gap count (dealt place len order)]
    exact (List.getElem?_eq_some_iff.1 h).1
  have hmembers : {w | ∃ s ∈ dealt place len order, s.1 = k ∧ value s.2 = w}.Nonempty := by
    obtain ⟨slot, hslot, hplace⟩ := honto k hk
    have hlt : slot < order.length := by rwa [hperm.length_eq, List.length_range]
    exact ⟨_, _, List.mem_mapIdx.2 ⟨slot, hlt, rfl⟩, hplace, rfl⟩
  obtain ⟨p, hp, hfrom, hgreatest⟩ := strips_getElem? hgap hk (dealt place len order)
  cases hp.symm.trans h
  rw [setOf_dealt hperm] at hgreatest hmembers
  refine ⟨hfrom, isGreatest_of_insert_zero hgreatest hmembers ?_⟩
  rintro _ ⟨i, -, rfl⟩
  exact hlen i i.isLt

/-- What is dealt into strips none of which stays empty, and is brought to the middle of its
strip, is aligned. -/
theorem aligned_strips (hperm : order.Perm (List.range n)) (hgap : 0 ≤ value gap)
    (hplace : ∀ slot < n, place slot < count) (honto : ∀ k < count, ∃ slot < n, place slot = k)
    (hlen : ∀ i < n, 0 ≤ value (len i)) {start : Fin n → ℝ}
    (hstart : ∀ i : Fin n, start i + value (len i) / 2 =
      value (stripMiddle (strips gap count (dealt place len order)) (place (order.idxOf i.val)))) :
    Aligned (value gap) (strips gap count (dealt place len order))
      (fun i : Fin n => place (order.idxOf i.val)) start fun i => value (len i) := by
  have hlt : ∀ i : Fin n,
      place (order.idxOf i.val) < (strips gap count (dealt place len order)).length := by
    intro i
    have hslot := List.idxOf_lt_length_of_mem (hperm.mem_iff.2 (List.mem_range.2 i.isLt))
    rw [hperm.length_eq, List.length_range] at hslot
    exact (hplace _ hslot).trans_eq (length_strips ..).symm
  have hmiddle : ∀ (i : Fin n) (s : α × α),
      (strips gap count (dealt place len order))[place (order.idxOf i.val)]? = some s →
        start i + value (len i) / 2 = value s.1 + value s.2 / 2 := by
    intro i s hs
    rw [hstart, value_stripMiddle hs]
  -- a member is no larger than its strip, which begins in the grid
  have hfits : ∀ i : Fin n, ∃ s,
      (strips gap count (dealt place len order))[place (order.idxOf i.val)]? = some s ∧
        0 ≤ value s.1 ∧ value (len i) ≤ value s.2 := by
    intro i
    obtain ⟨hfrom, hgreatest⟩ :=
      isGreatest_dealt hperm hgap honto hlen (List.getElem?_eq_getElem (hlt i))
    exact ⟨_, List.getElem?_eq_getElem (hlt i), hfrom, hgreatest.2 ⟨i, rfl, rfl⟩⟩
  constructor
  case strip_lt => exact hlt
  case largest => exact fun k s hs => (isGreatest_dealt hperm hgap honto hlen hs).2
  case middle => exact hmiddle
  case nonneg =>
    intro i
    obtain ⟨s, hs, hfrom, hsize⟩ := hfits i
    linarith [hmiddle i s hs]
  case apart =>
    intro i j hij
    obtain ⟨s, hs, -, hsize⟩ := hfits i
    obtain ⟨t, ht, -, hsize'⟩ := hfits j
    linarith [hmiddle i s hs, hmiddle j t ht, strips_before hgap hij hs ht]

end Axis

/-! ### The grid -/

/-- The boxes are dealt into a grid that is about as wide as it is high, and whose cells are
as large as they have to be. -/
structure Deals (boxes : List (Rect α)) (order : List ℕ) (spacing : α) : Prop where
  /-- The grid has as many columns and lines as its shape says. -/
  shape : gridShape order.length =
    ((gridColumns boxes order spacing).length, (gridLines boxes order spacing).length)
  /-- The columns are as many as the root of the number of boxes. -/
  columns_length : (gridColumns boxes order spacing).length = ⌈√(boxes.length : ℝ)⌉₊
  /-- The lines are as many as are needed. -/
  lines_length : (gridLines boxes order spacing).length =
    ⌈(boxes.length : ℝ) / (gridColumns boxes order spacing).length⌉₊
  /-- Every box has a cell of its own. -/
  cell_injective : Function.Injective fun i : Fin boxes.length => gridCell order i
  /-- The boxes lie in columns. -/
  columns : Aligned (value spacing) (gridColumns boxes order spacing)
    (fun i : Fin boxes.length => (gridCell order i).1)
    (fun i => value (gridPlaced boxes order spacing i).x) fun i => value (boxes.get i).w
  /-- The boxes lie in lines. -/
  lines : Aligned (value spacing) (gridLines boxes order spacing)
    (fun i : Fin boxes.length => (gridCell order i).2)
    (fun i => value (gridPlaced boxes order spacing i).y) fun i => value (boxes.get i).h
  /-- No two boxes overlap. -/
  separate : ∀ i j, i ≠ j →
    (gridPlaced boxes order spacing i).overlaps (gridPlaced boxes order spacing j) = false

variable {boxes : List (Rect α)} {order : List ℕ} {spacing : α}

omit [ExactScalar α] in
/-- A box that is dealt once has the slot of its first place in the order. -/
theorem lookup_slot {i : ℕ} (hnodup : order.Nodup) (hi : i ∈ order) :
    ((order.mapIdx fun slot i => (i, slot)).reverse).lookup i = some (order.idxOf i) := by
  obtain ⟨slot, hlookup, hslot⟩ := exists_slot hi
  obtain ⟨hlt, rfl⟩ := List.getElem?_eq_some_iff.1 hslot
  rw [hlookup, hnodup.idxOf_getElem]

/-- A box is brought to the middle of its column and of its line. -/
theorem gridPlaced_middle (hperm : order.Perm (List.range boxes.length)) (i : Fin boxes.length) :
    value (gridPlaced boxes order spacing i).x + value (boxes.get i).w / 2 =
        value (stripMiddle (gridColumns boxes order spacing) (gridCell order i).1) ∧
      value (gridPlaced boxes order spacing i).y + value (boxes.get i).h / 2 =
        value (stripMiddle (gridLines boxes order spacing) (gridCell order i).2) := by
  have hlookup := lookup_slot (hperm.nodup_iff.2 List.nodup_range)
    (hperm.mem_iff.2 (List.mem_range.2 i.isLt))
  obtain ⟨hlt, hget⟩ :=
    List.getElem?_eq_some_iff.1 (gridLayout_getElem? i.isLt hlookup spacing)
  have hplaced : gridPlaced boxes order spacing i =
      (boxes.get i).translate (gridLayout boxes order spacing)[i.val].x
        (gridLayout boxes order spacing)[i.val].y := rfl
  rw [hplaced, hget]
  simp only [Rect.translate, centeredOrigin, Rect.center, List.get_eq_getElem, value_add,
    value_sub, value_half, gridCell]
  constructor <;> ring

/-- Two boxes of a grid are apart by the spacing. -/
theorem gridPlaced_gap (hspacing : 0 ≤ value spacing) (horder : ∀ i < boxes.length, i ∈ order)
    {i j : Fin boxes.length} (hij : i ≠ j) :
    Gap (value spacing) (gridPlaced boxes order spacing i).region
      (gridPlaced boxes order spacing j).region := by
  have hzip : ∀ k : Fin boxes.length,
      k.val < (boxes.zip (gridLayout boxes order spacing)).length := fun k => by
    rw [List.length_zip, length_gridLayout, min_self]
    exact k.isLt
  have hbefore : ∀ k l : Fin boxes.length, k < l →
      Gap (value spacing) (gridPlaced boxes order spacing k).region
        (gridPlaced boxes order spacing l).region := by
    intro k l hkl
    have hgap := List.pairwise_iff_getElem.1 (gridLayout_gap hspacing horder) k l (hzip k)
      (hzip l) hkl
    rw [List.getElem_zip, List.getElem_zip] at hgap
    exact hgap
  rcases lt_or_gt_of_ne hij with h | h
  · exact hbefore i j h
  · exact (hbefore j i h).comm

/-- Boxes of no negative size are dealt into a grid of cells that are as large as they have
to be. -/
theorem gridLayout_deals (hboxes : ∀ r ∈ boxes, r.Proper) (hcount : boxes.length < 2 ^ 52)
    (hperm : order.Perm (List.range boxes.length)) (hspacing : 0 ≤ value spacing) :
    Deals boxes order spacing := by
  have hlength : order.length = boxes.length := by rw [hperm.length_eq, List.length_range]
  have hmem : ∀ i < boxes.length, i ∈ order := fun i hi => hperm.mem_iff.2 (List.mem_range.2 hi)
  have hbox : ∀ i : Fin boxes.length, boxes[i.val]?.getD .zero = boxes.get i := fun i => by
    rw [List.getElem?_eq_getElem i.isLt, Option.getD_some, List.get_eq_getElem]
  have hproper : ∀ i < boxes.length, (boxes[i]?.getD .zero).Proper := fun i hi => by
    rw [hbox ⟨i, hi⟩]
    exact hboxes _ (List.get_mem ..)
  constructor
  case shape => rw [gridColumns, gridLines, length_strips, length_strips]
  case columns_length => rw [gridColumns, length_strips, hlength, gridShape_columns hcount]
  case lines_length =>
    rw [gridColumns, gridLines, length_strips, length_strips, hlength, gridShape_lines]
  case cell_injective => exact fun i j h => Fin.ext (eq_of_gridCell_eq (hmem i i.isLt) h)
  case columns =>
    simp only [← hbox]
    refine aligned_strips hperm hspacing (fun slot hslot => ?_) (fun k hk => ?_)
      (fun i hi => (hproper i hi).width) fun i => ?_
    · exact (slot_mem_gridShape (hlength ▸ hslot)).1
    · exact hlength ▸ exists_slot_column hk
    · rw [hbox]
      exact (gridPlaced_middle hperm i).1
  case lines =>
    simp only [← hbox]
    refine aligned_strips hperm hspacing (fun slot hslot => ?_) (fun k hk => ?_)
      (fun i hi => (hproper i hi).height) fun i => ?_
    · exact (slot_mem_gridShape (hlength ▸ hslot)).2
    · exact hlength ▸ exists_slot_line hk
    · rw [hbox]
      exact (gridPlaced_middle hperm i).2
  case separate =>
    intro i j hij
    have hplaced : ∀ k, (gridPlaced boxes order spacing k).Proper := fun k =>
      (hboxes _ (List.get_mem boxes k)).translate _ _
    exact (Rect.overlaps_eq_false_iff (hplaced i) (hplaced j)).2
      ((gridPlaced_gap hspacing hmem hij).of_le hspacing)

/-- Five boxes, some of which do not begin at the origin. -/
def scatteredBoxes : List (Rect ℚ) :=
  [⟨0, 0, 4, 2⟩, ⟨-1, -1, 2, 2⟩, ⟨3, 5, 1, 6⟩, ⟨0, -2, 0, 3⟩, ⟨7, 0, 3, 3⟩]

/-- They can be dealt in another order. -/
theorem scatteredBoxes_deals :
    (∀ r ∈ scatteredBoxes, r.Proper) ∧ scatteredBoxes.length < 2 ^ 52 ∧
      [2, 0, 4, 1, 3].Perm (List.range scatteredBoxes.length) ∧ 0 ≤ value (2 : ℚ) ∧
      Deals scatteredBoxes [2, 0, 4, 1, 3] 2 := by
  have hsizes : ∀ r ∈ scatteredBoxes, 0 ≤ r.w ∧ 0 ≤ r.h := by decide
  have hboxes : ∀ r ∈ scatteredBoxes, r.Proper := fun r hr =>
    ⟨Rat.cast_nonneg.2 (hsizes r hr).1, Rat.cast_nonneg.2 (hsizes r hr).2⟩
  have hcount : scatteredBoxes.length < 2 ^ 52 := by norm_num [scatteredBoxes]
  have hperm : [2, 0, 4, 1, 3].Perm (List.range scatteredBoxes.length) := by decide
  have hspacing : 0 ≤ value (2 : ℚ) := by simp
  exact ⟨hboxes, hcount, hperm, hspacing, gridLayout_deals hboxes hcount hperm hspacing⟩

end Schematic
