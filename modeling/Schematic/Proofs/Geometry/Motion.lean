import Schematic.Geometry.Placement
import Schematic.Proofs.Geometry.Plane

/-!
# Placements as motions of the plane

With exact coordinates and rotations by quarter turns a placement is a motion of
the complex plane: it turns a point by a power of `-i`, since `y` points downward,
and moves it.  A placement in a frame is the composition of the two motions, and
the box around a placed box is the image of that box.

Two boxes are apart when some direction along an axis separates them.  That is
kept by motions and handed down to parts of the boxes, so that it needs to be
established once, where the boxes are put beside each other.

## Main definitions

* `IsQuarter`, `turn` — quarter turns, and the unit that turns by them.
* `Placement.move` — a placement as a motion.
* `Rect.region`, `Rect.Proper` — the points of a box, boxes of no negative size.
* `Close` — points within a distance on either axis.
* `Gap` — sets that an axis separates by some distance.

## Main statements

* `Placement.move_compose`, `Placement.move_compose_localize` — in and out of a
  frame.
* `Rect.region_placeBox` — the box around a placed box is its image.
* `abs_snap_sub_le` — how far a coordinate is from the grid.
* `Gap.move` — motions keep what separates two sets.
* `Rect.overlaps_eq_false_iff` — boxes that do not overlap are apart.
-/

namespace Schematic

open ExactScalar Complex
open scoped Scalar

variable {α : Type} [Scalar α] [ExactScalar α]

/-! ### Quarter turns -/

/-- The angle is a whole number of quarter turns. -/
def IsQuarter (deg : α) : Prop := ∃ k : ℤ, value deg = 90 * k

/-- The unit that turns by an angle, which is counted in whole quarter turns. -/
noncomputable def turn (deg : α) : ℂ := (-I) ^ ⌊value deg / 90⌋

theorem turn_of_value {deg : α} {k : ℤ} (h : value deg = 90 * k) : turn deg = (-I) ^ k := by
  rw [turn, h, mul_div_cancel_left₀ _ (by norm_num), Int.floor_intCast]

theorem neg_I_ne_zero : (-I : ℂ) ≠ 0 := neg_ne_zero.2 I_ne_zero

theorem neg_I_zpow_four : (-I : ℂ) ^ (4 : ℤ) = 1 := by
  have hsq : (-I : ℂ) ^ 2 = -1 := by rw [neg_sq, I_sq]
  calc (-I : ℂ) ^ (4 : ℤ) = ((-I) ^ 2) ^ 2 := by rw [← pow_mul]; rfl
    _ = 1 := by rw [hsq]; norm_num

/-- Only the quarter turns beyond whole turns count. -/
theorem neg_I_zpow_emod (k : ℤ) : (-I : ℂ) ^ (k % 4) = (-I) ^ k := by
  conv_rhs => rw [← Int.mul_ediv_add_emod k 4]
  rw [zpow_add₀ neg_I_ne_zero, zpow_mul, neg_I_zpow_four, one_zpow, one_mul]

/-- The four quarter turns. -/
theorem neg_I_zpow_cases (k : ℤ) :
    (k % 4 = 0 ∧ (-I : ℂ) ^ k = 1) ∨ (k % 4 = 1 ∧ (-I : ℂ) ^ k = -I) ∨
      (k % 4 = 2 ∧ (-I : ℂ) ^ k = -1) ∨ (k % 4 = 3 ∧ (-I : ℂ) ^ k = I) := by
  have hk := neg_I_zpow_emod k
  have hm : k % 4 = 0 ∨ k % 4 = 1 ∨ k % 4 = 2 ∨ k % 4 = 3 := by omega
  rcases hm with h | h | h | h
  · exact .inl ⟨h, by rw [← hk, h, zpow_zero]⟩
  · exact .inr (.inl ⟨h, by rw [← hk, h, zpow_one]⟩)
  · refine .inr (.inr (.inl ⟨h, ?_⟩))
    rw [← hk, h, zpow_ofNat]
    norm_num
  · refine .inr (.inr (.inr ⟨h, ?_⟩))
    rw [← hk, h, zpow_ofNat, pow_succ, neg_sq, I_sq]
    ring

/-- What truncated division leaves of a number of quarters. -/
theorem sub_wholePart_quarters (k : ℤ) : (k : ℝ) - 4 * wholePart ((k : ℝ) / 4) =
    if 0 ≤ k ∨ k % 4 = 0 then ((k % 4 : ℤ) : ℝ) else ((k % 4 : ℤ) : ℝ) - 4 := by
  have hnonneg : 0 ≤ k % 4 := Int.emod_nonneg k (by norm_num)
  have hlt : k % 4 < 4 := Int.emod_lt_of_pos k (by norm_num)
  have hsum : (k : ℝ) = 4 * (k / 4 : ℤ) + (k % 4 : ℤ) := by
    exact_mod_cast (Int.mul_ediv_add_emod k 4).symm
  have hwhole : wholePart ((k : ℝ) / 4) = if 0 ≤ k ∨ k % 4 = 0 then k / 4 else k / 4 + 1 := by
    have h0 : (0 : ℝ) ≤ (k % 4 : ℤ) := by exact_mod_cast hnonneg
    have h4 : ((k % 4 : ℤ) : ℝ) < 4 := by exact_mod_cast hlt
    rw [wholePart]
    by_cases hk : 0 ≤ k
    · have hk' : (0 : ℝ) ≤ k / 4 := by positivity
      rw [if_pos hk', if_pos (.inl hk), Int.floor_eq_iff]
      constructor <;> linarith
    · have hk' : ¬(0 : ℝ) ≤ k / 4 := by
        have : (k : ℝ) < 0 := by exact_mod_cast not_le.1 hk
        linarith
      rw [if_neg hk', Int.ceil_eq_iff]
      by_cases hm : k % 4 = 0
      · rw [if_pos (.inr hm)]
        rw [hm, Int.cast_zero] at hsum
        constructor <;> linarith
      · have h1 : (1 : ℝ) ≤ (k % 4 : ℤ) := by exact_mod_cast (by omega : 1 ≤ k % 4)
        rw [if_neg (by tauto)]
        push_cast
        constructor <;> linarith
  rw [hwhole]
  split
  · linarith
  · push_cast
    linarith

/-- An angle of whole quarter turns is brought to one of the first four. -/
theorem value_normalizeDegrees {deg : α} {k : ℤ} (h : value deg = 90 * k) :
    value (normalizeDegrees deg) = 90 * (k % 4 : ℤ) := by
  have hnonneg : (0 : ℝ) ≤ (k % 4 : ℤ) := by exact_mod_cast Int.emod_nonneg k (by norm_num)
  have hle : ((k % 4 : ℤ) : ℝ) ≤ 3 := by
    exact_mod_cast Int.lt_add_one_iff.1 (Int.emod_lt_of_pos k (by norm_num) : k % 4 < 3 + 1)
  have hturn : value (360 : α) = 360 := by simp
  have hrem : value (Scalar.remainder deg 360) = 90 * ((k : ℝ) - 4 * wholePart ((k : ℝ) / 4)) := by
    have hquot : (90 * k : ℝ) / 360 = k / 4 := by ring
    rw [value_remainder _ _ (by simp), h, hturn, hquot]
    ring
  -- a negative remainder is brought into the range by a whole turn
  have hturned : value (if Scalar.remainder deg 360 < 0 then Scalar.remainder deg 360 + 360
      else Scalar.remainder deg 360) = 90 * (k % 4 : ℤ) := by
    rw [sub_wholePart_quarters] at hrem
    have hsign : Scalar.remainder deg 360 < (0 : α) ↔ ¬(0 ≤ k ∨ k % 4 = 0) := by
      rw [lt_iff, hrem, value_zero]
      split
      · next hk => exact iff_of_false (by linarith) (not_not.2 hk)
      · next hk => exact iff_of_true (by linarith) hk
    by_cases hk : 0 ≤ k ∨ k % 4 = 0
    · rw [if_neg (mt hsign.1 (not_not.2 hk)), hrem, if_pos hk]
    · rw [if_pos (hsign.2 hk), value_add, hrem, if_neg hk, hturn]
      ring
  have hfar : ∀ r : α, value r = 90 * (k % 4 : ℤ) → ¬Scalar.abs (r - 360) < (1e-9 : α) := by
    intro r hr
    rw [lt_iff, value_abs, value_sub, hr, hturn, value_decimal, not_lt, abs_sub_comm,
      abs_of_nonneg (by linarith)]
    norm_num
    linarith
  rw [normalizeDegrees]
  exact (congrArg value (if_neg (hfar _ hturned))).trans hturned

/-- An offset is turned by multiplication with the unit. -/
theorem complex_rotateOffset {deg : α} {k : ℤ} (h : value deg = 90 * k) (dx dy : α) :
    (⟨value (rotateOffset dx dy deg).1, value (rotateOffset dx dy deg).2⟩ : ℂ) =
      (-I) ^ k * ⟨value dx, value dy⟩ := by
  have hquarter : value (normalizeDegrees deg / 90) = (k % 4 : ℤ) := by
    have hninety : value (90 : α) = 90 := by simp
    rw [value_div _ _ (by simp), value_normalizeDegrees h, hninety]
    ring
  have hround : value (Scalar.round (normalizeDegrees deg / 90)) = (k % 4 : ℤ) := by
    rw [value_round, hquarter, roundAway_intCast]
  have hclose : Scalar.abs (normalizeDegrees deg / 90 - Scalar.round (normalizeDegrees deg / 90))
      < (1e-9 : α) := by
    rw [lt_iff, value_abs, value_sub, hround, hquarter, sub_self, abs_zero, value_decimal]
    positivity
  have hcount : Scalar.truncate (Scalar.round (normalizeDegrees deg / 90)) % 4 = k % 4 := by
    rw [truncate_eq, hround, wholePart_intCast, Int.emod_emod]
  simp only [rotateOffset, if_pos hclose, hcount]
  rcases neg_I_zpow_cases k with ⟨hm, hu⟩ | ⟨hm, hu⟩ | ⟨hm, hu⟩ | ⟨hm, hu⟩
  all_goals simp [hm, hu, Complex.ext_iff]

theorem IsQuarter.turn_ne_zero (deg : α) : turn deg ≠ 0 := zpow_ne_zero _ neg_I_ne_zero

/-- Angles add up, and their turns are one after the other. -/
theorem normalizeDegrees_add {a b : α} (ha : IsQuarter a) (hb : IsQuarter b) :
    IsQuarter (normalizeDegrees (a + b)) ∧ turn (normalizeDegrees (a + b)) = turn a * turn b := by
  obtain ⟨j, hj⟩ := ha
  obtain ⟨k, hk⟩ := hb
  have hsum : value (a + b) = 90 * (j + k : ℤ) := by
    rw [value_add, hj, hk]
    push_cast
    ring
  have hnorm := value_normalizeDegrees hsum
  refine ⟨⟨_, hnorm⟩, ?_⟩
  rw [turn_of_value hnorm, neg_I_zpow_emod, zpow_add₀ neg_I_ne_zero, turn_of_value hj,
    turn_of_value hk]

theorem normalizeDegrees_sub {a b : α} (ha : IsQuarter a) (hb : IsQuarter b) :
    IsQuarter (normalizeDegrees (a - b)) ∧
      turn b * turn (normalizeDegrees (a - b)) = turn a := by
  obtain ⟨j, hj⟩ := ha
  obtain ⟨k, hk⟩ := hb
  have hdiff : value (a - b) = 90 * (j - k : ℤ) := by
    rw [value_sub, hj, hk]
    push_cast
    ring
  have hnorm := value_normalizeDegrees hdiff
  refine ⟨⟨_, hnorm⟩, ?_⟩
  rw [turn_of_value hnorm, neg_I_zpow_emod, turn_of_value hj, turn_of_value hk,
    ← zpow_add₀ neg_I_ne_zero, add_sub_cancel]

/-! ### What is close -/

/-- Two points are no further apart than a distance on either axis. -/
def Close (r : ℝ) (z w : ℂ) : Prop := |w.re - z.re| ≤ r ∧ |w.im - z.im| ≤ r

theorem Close.refl {r : ℝ} (hr : 0 ≤ r) (z : ℂ) : Close r z z := by
  simp [Close, hr]

theorem Close.mono {r r' : ℝ} {z w : ℂ} (h : Close r z w) (hr : r ≤ r') : Close r' z w :=
  ⟨h.1.trans hr, h.2.trans hr⟩

/-- Quarter turns swap the axes at most. -/
theorem Close.turn {r : ℝ} {z w : ℂ} (h : Close r z w) (k : ℤ) :
    Close r ((-I) ^ k * z) ((-I) ^ k * w) := by
  obtain ⟨hre, him⟩ := h
  have hre' := abs_sub_comm w.re z.re ▸ hre
  have him' := abs_sub_comm w.im z.im ▸ him
  rcases neg_I_zpow_cases k with ⟨-, hu⟩ | ⟨-, hu⟩ | ⟨-, hu⟩ | ⟨-, hu⟩
  all_goals
    rw [hu]
    constructor <;> simp only [one_mul, neg_mul, neg_re, neg_im, mul_re, mul_im, I_re, I_im,
      zero_mul, zero_sub, zero_add, neg_neg, sub_neg_eq_add, neg_add_eq_sub] <;> assumption

/-- A coordinate is brought onto the grid over half the pitch at most. -/
theorem abs_snap_sub_le {pitch : α} (hpitch : 0 ≤ value pitch) (v : α) :
    |value (snap v pitch) - value v| ≤ value pitch / 2 := by
  have hround : ∀ x : ℝ, |(roundAway x : ℝ) - x| ≤ 1 / 2 := by
    intro x
    rw [abs_le, roundAway]
    split
    · have hle := Int.floor_le (x + 1 / 2)
      have hlt := Int.lt_floor_add_one (x + 1 / 2)
      constructor <;> linarith
    · have hle := Int.le_ceil (x - 1 / 2)
      have hlt := Int.ceil_lt_add_one (x - 1 / 2)
      constructor <;> linarith
  unfold snap
  split
  · rw [sub_self, abs_zero]
    linarith
  · next hpos =>
    rw [le_iff, value_zero, not_le] at hpos
    rw [value_mul, value_round, value_div _ _ hpos.ne']
    calc |(roundAway (value v / value pitch) : ℝ) * value pitch - value v|
        = |(roundAway (value v / value pitch) : ℝ) - value v / value pitch| * value pitch := by
          rw [← abs_of_pos hpos, ← abs_mul, abs_of_pos hpos, sub_mul, div_mul_cancel₀ _ hpos.ne']
      _ ≤ 1 / 2 * value pitch := mul_le_mul_of_nonneg_right (hround _) hpos.le
      _ = value pitch / 2 := by ring

/-! ### Motions -/

namespace Placement

variable {f g p : Placement α}

/-- The motion that a placement is. -/
noncomputable def move (p : Placement α) (z : ℂ) : ℂ := p.point.complex + turn p.rotation * z

/-- The placement turns by whole quarter turns. -/
def Square (p : Placement α) : Prop := IsQuarter p.rotation

theorem isQuarter_zero : IsQuarter (0 : α) := ⟨0, by simp⟩

theorem turn_zero : turn (0 : α) = 1 := by simp [turn]

theorem square_origin : (origin : Placement α).Square := isQuarter_zero

theorem move_of_rotation_zero (h : p.rotation = 0) (z : ℂ) : p.move z = p.point.complex + z := by
  rw [move, h, turn_zero, one_mul]

@[simp] theorem move_origin (z : ℂ) : (origin : Placement α).move z = z := by
  rw [move_of_rotation_zero rfl]
  simp [Placement.point, origin, Point.complex, Complex.ext_iff]

theorem Square.compose (hf : f.Square) (hg : g.Square) : (f.compose g).Square :=
  (normalizeDegrees_add hf hg).1

theorem Square.localize (hf : f.Square) (hg : g.Square) : (f.localize g).Square :=
  (normalizeDegrees_sub hg hf).1

/-- What is placed in a frame is moved by both placements. -/
theorem move_compose (hf : f.Square) (hg : g.Square) (z : ℂ) :
    (f.compose g).move z = f.move (g.move z) := by
  obtain ⟨k, hk⟩ := hf
  have hpoint : (f.compose g).point.complex =
      f.point.complex + turn f.rotation * g.point.complex := by
    rw [turn_of_value hk]
    refine Eq.trans ?_ (congrArg (f.point.complex + ·) (complex_rotateOffset hk g.x g.y))
    simp [Placement.compose, Placement.point, Point.complex, Complex.ext_iff]
  have hturn : turn (f.compose g).rotation = turn f.rotation * turn g.rotation :=
    (normalizeDegrees_add ⟨k, hk⟩ hg).2
  rw [move, hpoint, hturn, move, move]
  ring

/-- A placement that is brought into a frame and out again is the same motion. -/
theorem move_compose_localize (hf : f.Square) (hg : g.Square) (z : ℂ) :
    (f.compose (f.localize g)).move z = g.move z := by
  rw [move_compose hf (hf.localize hg)]
  have hturn : turn f.rotation * turn (f.localize g).rotation = turn g.rotation :=
    (normalizeDegrees_sub hg hf).2
  obtain ⟨k, hk⟩ := hf
  have hneg : value (-f.rotation) = 90 * (-k : ℤ) := by
    rw [value_neg, hk]
    push_cast
    ring
  have hpoint : turn f.rotation * (f.localize g).point.complex =
      g.point.complex - f.point.complex := by
    have hoffset : (f.localize g).point.complex =
        (-I) ^ (-k) * (g.point.complex - f.point.complex) := by
      refine (complex_rotateOffset hneg (g.x - f.x) (g.y - f.y)).trans ?_
      congr 1
      simp [Placement.point, Point.complex, Complex.ext_iff]
    rw [hoffset, turn_of_value hk, ← mul_assoc, ← zpow_add₀ neg_I_ne_zero, add_neg_cancel,
      zpow_zero, one_mul]
  rw [move, move, move, mul_add, hpoint, ← mul_assoc, hturn]
  ring

/-- A point is the image of the point that is moved back and turned back. -/
theorem mem_image_move (p : Placement α) {A : Set ℂ} {z : ℂ} :
    z ∈ p.move '' A ↔ (turn p.rotation)⁻¹ * (z - p.point.complex) ∈ A := by
  have hne : turn p.rotation ≠ 0 := IsQuarter.turn_ne_zero _
  constructor
  · rintro ⟨w, hw, rfl⟩
    rwa [move, add_sub_cancel_left, inv_mul_cancel_left₀ hne]
  · intro h
    exact ⟨_, h, by rw [move, mul_inv_cancel_left₀ hne, add_sub_cancel]⟩

end Placement

/-! ### Boxes -/

namespace Rect

variable {r s : Rect α}

/-- The points of a box. -/
def region (r : Rect α) : Set ℂ :=
  Set.Icc (value r.x) (value r.right) ×ℂ Set.Icc (value r.y) (value r.bottom)

/-- A box has no negative size. -/
structure Proper (r : Rect α) : Prop where
  /-- The width is none or more. -/
  width : 0 ≤ value r.w
  /-- The height is none or more. -/
  height : 0 ≤ value r.h

theorem mem_region {z : ℂ} : z ∈ r.region ↔
    (value r.x ≤ z.re ∧ z.re ≤ value r.right) ∧ value r.y ≤ z.im ∧ z.im ≤ value r.bottom := by
  simp [region, Complex.mem_reProdIm]

theorem value_right (r : Rect α) : value r.right = value r.x + value r.w :=
  value_add r.x r.w

theorem value_bottom (r : Rect α) : value r.bottom = value r.y + value r.h :=
  value_add r.y r.h

theorem value_union (r s : Rect α) :
    (value (r.union s).x = min (value r.x) (value s.x) ∧
      value (r.union s).right = max (value r.right) (value s.right)) ∧
    value (r.union s).y = min (value r.y) (value s.y) ∧
      value (r.union s).bottom = max (value r.bottom) (value s.bottom) := by
  simp [union, right, bottom]

theorem Proper.left_le_right (h : r.Proper) : value r.x ≤ value r.right := by
  rw [value_right]
  linarith [h.width]

theorem Proper.top_le_bottom (h : r.Proper) : value r.y ≤ value r.bottom := by
  rw [value_bottom]
  linarith [h.height]

theorem Proper.union (h : r.Proper) (s : Rect α) : (r.union s).Proper := by
  obtain ⟨⟨hx, hright⟩, hy, hbottom⟩ := value_union r s
  have hwide : value (r.union s).x ≤ value (r.union s).right := by
    rw [hx, hright]
    exact (min_le_left _ _).trans (h.left_le_right.trans (le_max_left _ _))
  have hhigh : value (r.union s).y ≤ value (r.union s).bottom := by
    rw [hy, hbottom]
    exact (min_le_left _ _).trans (h.top_le_bottom.trans (le_max_left _ _))
  rw [value_right] at hwide
  rw [value_bottom] at hhigh
  constructor <;> linarith

theorem region_subset_union_left (r s : Rect α) : r.region ⊆ (r.union s).region := by
  intro z hz
  rw [mem_region] at hz ⊢
  simp only [value_union, min_le_iff, le_max_iff]
  exact ⟨⟨.inl hz.1.1, .inl hz.1.2⟩, .inl hz.2.1, .inl hz.2.2⟩

theorem region_subset_union_right (r s : Rect α) : s.region ⊆ (r.union s).region := by
  intro z hz
  rw [mem_region] at hz ⊢
  simp only [value_union, min_le_iff, le_max_iff]
  exact ⟨⟨.inr hz.1.1, .inr hz.1.2⟩, .inr hz.2.1, .inr hz.2.2⟩

theorem Proper.translate (h : r.Proper) (dx dy : α) : (r.translate dx dy).Proper :=
  ⟨h.width, h.height⟩

theorem region_translate (r : Rect α) (dx dy : α) :
    (r.translate dx dy).region = (⟨dx, dy, 0⟩ : Placement α).move '' r.region := by
  ext z
  rw [Placement.mem_image_move, Placement.turn_zero, inv_one, one_mul, mem_region, mem_region]
  simp only [translate, right, bottom, value_add, Placement.point, Point.complex, sub_re, sub_im]
  constructor
  all_goals
    rintro ⟨⟨hleft, hright⟩, htop, hbottom⟩
    constructor <;> constructor <;> linarith

theorem translate_add (r : Rect α) (dx dy dx' dy' : α) :
    r.translate (dx + dx') (dy + dy') = (r.translate dx dy).translate dx' dy' := by
  have hassoc : ∀ a b c : α, a + (b + c) = a + b + c := fun a b c =>
    value_injective (by simp only [value_add, add_assoc])
  simp only [translate, hassoc]

/-- The box around a placed box has the points of that box, moved. -/
theorem region_placeBox {p : Placement α} (hr : r.Proper) (hp : p.Square) :
    (placeBox r p).region = p.move '' r.region := by
  obtain ⟨k, hk⟩ := hp
  have hre : ∀ x y,
      value (rotateOffset x y p.rotation).1 = ((-I) ^ k * ⟨value x, value y⟩ : ℂ).re :=
    fun x y => congrArg Complex.re (complex_rotateOffset hk x y)
  have him : ∀ x y,
      value (rotateOffset x y p.rotation).2 = ((-I) ^ k * ⟨value x, value y⟩ : ℂ).im :=
    fun x y => congrArg Complex.im (complex_rotateOffset hk x y)
  have hw := hr.left_le_right
  have hh := hr.top_le_bottom
  generalize hright : r.right = right at hw hh
  generalize hbottom : r.bottom = bottom at hw hh
  ext z
  rw [p.mem_image_move, turn_of_value hk, mem_region, mem_region, placeBox, hright, hbottom]
  simp only [value_union, min_le_iff, le_max_iff]
  simp only [value_right, value_bottom, value_add, hre, him]
  -- each quarter turn takes two opposite corners to those of the box around them
  rcases neg_I_zpow_cases k with ⟨-, hu⟩ | ⟨-, hu⟩ | ⟨-, hu⟩ | ⟨-, hu⟩
  all_goals
    simp [hu, Placement.point, Point.complex]
    clear hre him hu hk
    grind

theorem proper_placeBox (r : Rect α) (p : Placement α) : (placeBox r p).Proper := by
  have hpoint : ∀ x y : α, (⟨x, y, 0, 0⟩ : Rect α).Proper := fun x y => ⟨by simp, by simp⟩
  exact (((hpoint _ _).union _).union _).union _

theorem Proper.inflate (h : r.Proper) {pad : α} (hpad : 0 ≤ value pad) :
    (r.inflate pad).Proper := by
  constructor
  · have hw := h.width
    simp [Rect.inflate]
    linarith
  · have hh := h.height
    simp [Rect.inflate]
    linarith

@[simp] theorem region_inflate_zero (r : Rect α) : (r.inflate 0).region = r.region := by
  ext z
  rw [mem_region, mem_region]
  simp only [inflate, right, bottom, value_add, value_sub, value_mul, value_zero, sub_zero,
    mul_zero, add_zero]

/-- A point that is close to a point of a box lies in the box with some room around it. -/
theorem mem_region_inflate {pad : α} {z w : ℂ} (hz : z ∈ r.region)
    (hclose : Close (value pad) z w) : w ∈ (r.inflate pad).region := by
  obtain ⟨hre, him⟩ := hclose
  rw [mem_region, value_right, value_bottom] at hz ⊢
  rw [abs_le] at hre him
  simp only [Rect.inflate, value_add, value_sub, value_mul, value_two]
  constructor <;> constructor <;> linarith

/-- A box that is moved about as far as another motion does lies in the box with some room
around it that this one moves. -/
theorem image_subset_of_close {f p : Placement α} (hf : f.Square) {pad : α}
    (hclose : ∀ z, Close (value pad) (f.move z) (p.move z)) :
    p.move '' r.region ⊆ f.move '' (r.inflate pad).region := by
  obtain ⟨k, hk⟩ := hf
  have hback : (turn f.rotation)⁻¹ = (-I) ^ (-k) := by rw [turn_of_value hk, zpow_neg]
  rintro _ ⟨z, hz, rfl⟩
  rw [f.mem_image_move, hback]
  have hsource : z = (-I) ^ (-k) * (f.move z - f.point.complex) := by
    rw [Placement.move, add_sub_cancel_left, turn_of_value hk, ← mul_assoc,
      ← zpow_add₀ neg_I_ne_zero, neg_add_cancel, zpow_zero, one_mul]
  have hshifted : Close (value pad) (f.move z - f.point.complex) (p.move z - f.point.complex) := by
    obtain ⟨hre, him⟩ := hclose z
    constructor
    · simpa only [sub_re, sub_sub_sub_cancel_right] using hre
    · simpa only [sub_im, sub_sub_sub_cancel_right] using him
  have hturned := hshifted.turn (-k)
  rw [← hsource] at hturned
  exact mem_region_inflate hz hturned

end Rect

/-! ### What is apart -/

/-- An axis separates two sets by a distance: after some quarter turns one lies to the left
of the other. -/
def Gap (gap : ℝ) (A B : Set ℂ) : Prop :=
  ∃ (k : ℤ) (c : ℝ), (∀ a ∈ A, ((-I) ^ k * a).re ≤ c) ∧ ∀ b ∈ B, c + gap ≤ ((-I) ^ k * b).re

namespace Gap

variable {gap : ℝ} {A B : Set ℂ}

theorem comm (h : Gap gap A B) : Gap gap B A := by
  obtain ⟨k, c, hA, hB⟩ := h
  have hhalf : ∀ z : ℂ, ((-I) ^ (k + 2) * z).re = -((-I) ^ k * z).re := by
    intro z
    have hsq : (-I : ℂ) ^ (2 : ℤ) = -1 := by
      rw [zpow_ofNat, neg_sq, I_sq]
    rw [zpow_add₀ neg_I_ne_zero, hsq, mul_neg_one, neg_mul, neg_re]
  refine ⟨k + 2, -(c + gap), fun b hb => ?_, fun a ha => ?_⟩
  · rw [hhalf]
    exact neg_le_neg (hB b hb)
  · rw [hhalf]
    linarith [hA a ha]

/-- Parts of sets that are apart are apart. -/
theorem mono (h : Gap gap A B) {A' B' : Set ℂ} (hA : A' ⊆ A) (hB : B' ⊆ B) : Gap gap A' B' := by
  obtain ⟨k, c, hleft, hright⟩ := h
  exact ⟨k, c, fun a ha => hleft a (hA ha), fun b hb => hright b (hB hb)⟩

theorem of_le (h : Gap gap A B) {less : ℝ} (hless : less ≤ gap) : Gap less A B := by
  obtain ⟨k, c, hleft, hright⟩ := h
  exact ⟨k, c, hleft, fun b hb => (add_le_add_right hless c).trans (hright b hb)⟩

/-- Sets that are close to sets that are apart are apart, too, by less. -/
theorem of_close {r : ℝ} (h : Gap gap A B) {A' B' : Set ℂ} (hA : ∀ a' ∈ A', ∃ a ∈ A, Close r a a')
    (hB : ∀ b' ∈ B', ∃ b ∈ B, Close r b b') : Gap (gap - 2 * r) A' B' := by
  obtain ⟨k, c, hleft, hright⟩ := h
  refine ⟨k, c + r, fun a' ha' => ?_, fun b' hb' => ?_⟩
  · obtain ⟨a, ha, hclose⟩ := hA a' ha'
    have hnear := (abs_le.1 (hclose.turn k).1).2
    linarith [hleft a ha]
  · obtain ⟨b, hb, hclose⟩ := hB b' hb'
    have hnear := (abs_le.1 (hclose.turn k).1).1
    linarith [hright b hb]

/-- A motion keeps what separates two sets. -/
theorem move {p : Placement α} (hp : p.Square) (h : Gap gap A B) :
    Gap gap (p.move '' A) (p.move '' B) := by
  obtain ⟨k, c, hA, hB⟩ := h
  obtain ⟨j, hj⟩ := hp
  have hturned : ∀ z, ((-I) ^ (k - j) * p.move z).re =
      ((-I) ^ (k - j) * p.point.complex).re + ((-I) ^ k * z).re := by
    intro z
    rw [Placement.move, mul_add, turn_of_value hj, ← mul_assoc, ← zpow_add₀ neg_I_ne_zero,
      sub_add_cancel, add_re]
  refine ⟨k - j, ((-I) ^ (k - j) * p.point.complex).re + c, ?_, ?_⟩
  · rintro _ ⟨a, ha, rfl⟩
    rw [hturned]
    linarith [hA a ha]
  · rintro _ ⟨b, hb, rfl⟩
    rw [hturned]
    linarith [hB b hb]

end Gap

namespace Rect

variable {r s : Rect α}

/-- A box that ends before another one begins is apart from it. -/
theorem gap_of_right_le {gap : ℝ} (h : value r.right + gap ≤ value s.x) :
    Gap gap r.region s.region := by
  refine ⟨0, value r.right, fun a ha => ?_, fun b hb => ?_⟩
  · rw [zpow_zero, one_mul]
    exact (mem_region.1 ha).1.2
  · rw [zpow_zero, one_mul]
    exact h.trans (mem_region.1 hb).1.1

theorem gap_of_bottom_le {gap : ℝ} (h : value r.bottom + gap ≤ value s.y) :
    Gap gap r.region s.region := by
  have hre : ∀ z : ℂ, ((-I) ^ (1 : ℤ) * z).re = z.im := fun z => by simp
  refine ⟨1, value r.bottom, fun a ha => ?_, fun b hb => ?_⟩
  · rw [hre]
    exact (mem_region.1 ha).2.2
  · rw [hre]
    exact h.trans (mem_region.1 hb).2.1

/-- Boxes do not overlap exactly when they are apart. -/
theorem overlaps_eq_false_iff (hr : r.Proper) (hs : s.Proper) :
    r.overlaps s = false ↔ Gap 0 r.region s.region := by
  simp only [overlaps, Bool.and_eq_false_iff, decide_eq_false_iff_not, lt_iff, not_lt]
  constructor
  · rintro (((h | h) | h) | h)
    · exact (gap_of_right_le (by rwa [add_zero])).comm
    · exact gap_of_right_le (by rwa [add_zero])
    · exact (gap_of_bottom_le (by rwa [add_zero])).comm
    · exact gap_of_bottom_le (by rwa [add_zero])
  · rintro ⟨k, c, hA, hB⟩
    -- the corners of the boxes that are nearest to the other one tell them apart
    have hcorners : ∀ t : Rect α, t.Proper → (⟨value t.x, value t.y⟩ : ℂ) ∈ t.region ∧
        (⟨value t.right, value t.bottom⟩ : ℂ) ∈ t.region := fun t ht =>
      ⟨mem_region.2 ⟨⟨le_rfl, ht.left_le_right⟩, le_rfl, ht.top_le_bottom⟩,
        mem_region.2 ⟨⟨ht.left_le_right, le_rfl⟩, ht.top_le_bottom, le_rfl⟩⟩
    obtain ⟨hr0, hr1⟩ := hcorners r hr
    obtain ⟨hs0, hs1⟩ := hcorners s hs
    have hlow : ∀ z ∈ r.region, ∀ w ∈ s.region, ((-I) ^ k * z).re ≤ ((-I) ^ k * w).re :=
      fun z hz w hw => (hA z hz).trans (by linarith [hB w hw])
    rcases neg_I_zpow_cases k with ⟨-, hu⟩ | ⟨-, hu⟩ | ⟨-, hu⟩ | ⟨-, hu⟩
    · have h := hlow _ hr1 _ hs0
      rw [hu] at h
      exact .inl (.inl (.inr (by simpa using h)))
    · have h := hlow _ hr1 _ hs0
      rw [hu] at h
      exact .inr (by simpa using h)
    · have h := hlow _ hr0 _ hs1
      rw [hu] at h
      exact .inl (.inl (.inl (by simpa using h)))
    · have h := hlow _ hr0 _ hs1
      rw [hu] at h
      exact .inl (.inr (by simpa using h))

end Rect

end Schematic
