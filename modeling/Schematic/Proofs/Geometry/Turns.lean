import Schematic.Proofs.Geometry.Motion

/-!
# Placements up to whole turns

Angles that differ by whole turns turn alike.  A placement that comes out of a
frame, or is brought into one, has an angle below a whole turn, and no two such
placements are the same motion.  So what is known of motions is known of these
placements themselves: to bring one into a frame and to take one out of it are
inverse to each other.

## Main definitions

* `SameTurn` — angles that differ by whole turns.
* `Placement.Normal` — placements turned by less than a whole turn.
* `Placement.Alike` — placements that agree up to whole turns.

## Main statements

* `normalizeDegrees_congr`, `placeBox_congr` — whole turns make no difference.
* `Placement.alike_of_move`, `Placement.eq_of_move` — placements known by their
  motions.
* `Placement.compose_localize`, `Placement.localize_compose` — into a frame and out
  of it.
-/

namespace Schematic

open ExactScalar Complex
open scoped Scalar

variable {α : Type} [Scalar α] [ExactScalar α]

/-! ### Angles -/

/-- The angles differ by whole turns. -/
def SameTurn (a b : α) : Prop := ∃ k : ℤ, value a = value b + 360 * k

variable {a b c : α}

theorem SameTurn.refl (a : α) : SameTurn a a := ⟨0, by simp⟩

theorem SameTurn.symm (h : SameTurn a b) : SameTurn b a := by
  obtain ⟨k, hk⟩ := h
  refine ⟨-k, ?_⟩
  rw [hk]
  push_cast
  ring

theorem SameTurn.trans (h : SameTurn a b) (h' : SameTurn b c) : SameTurn a c := by
  obtain ⟨j, hj⟩ := h
  obtain ⟨k, hk⟩ := h'
  refine ⟨k + j, ?_⟩
  rw [hj, hk]
  push_cast
  ring

theorem SameTurn.isQuarter (h : SameTurn a b) (hb : IsQuarter b) : IsQuarter a := by
  obtain ⟨j, hj⟩ := h
  obtain ⟨k, hk⟩ := hb
  refine ⟨k + 4 * j, ?_⟩
  rw [hj, hk]
  push_cast
  ring

/-- Only a number of whole turns leaves everything where it is. -/
theorem neg_I_zpow_eq_one_iff (k : ℤ) : (-I : ℂ) ^ k = 1 ↔ k % 4 = 0 := by
  rcases neg_I_zpow_cases k with ⟨hm, hu⟩ | ⟨hm, hu⟩ | ⟨hm, hu⟩ | ⟨hm, hu⟩
  all_goals rw [hu, hm]
  · norm_num
  all_goals
    constructor
    · intro h
      norm_num [Complex.ext_iff] at h
    · intro h
      omega

/-- Quarter turns turn alike exactly when they differ by whole turns. -/
theorem turn_eq_iff (ha : IsQuarter a) (hb : IsQuarter b) : turn a = turn b ↔ SameTurn a b := by
  obtain ⟨j, hj⟩ := ha
  obtain ⟨k, hk⟩ := hb
  have hwhole : (-I : ℂ) ^ j = (-I) ^ k ↔ (j - k) % 4 = 0 := by
    rw [← neg_I_zpow_eq_one_iff, zpow_sub₀ neg_I_ne_zero,
      div_eq_one_iff_eq (zpow_ne_zero k neg_I_ne_zero)]
  rw [turn_of_value hj, turn_of_value hk, hwhole]
  constructor
  · intro h
    have hsum : j = k + 4 * ((j - k) / 4) := by omega
    have hreal : (j : ℝ) = k + 4 * ((j - k) / 4 : ℤ) := by exact_mod_cast hsum
    refine ⟨(j - k) / 4, ?_⟩
    rw [hj, hk, hreal]
    ring
  · rintro ⟨i, hi⟩
    rw [hj, hk] at hi
    have hreal : (j : ℝ) = k + 4 * i := by linarith
    have hsum : j = k + 4 * i := by exact_mod_cast hreal
    omega

/-- An angle is brought below a whole turn by whole turns. -/
theorem sameTurn_normalizeDegrees (ha : IsQuarter a) : SameTurn (normalizeDegrees a) a := by
  obtain ⟨k, hk⟩ := ha
  have hnorm := value_normalizeDegrees hk
  refine (turn_eq_iff ⟨_, hnorm⟩ ⟨k, hk⟩).1 ?_
  rw [turn_of_value hnorm, turn_of_value hk, neg_I_zpow_emod]

/-! ### Quarter turns below a whole one -/

/-- The angle is one of the four quarter turns below a whole one. -/
structure IsFirstTurn (deg : α) : Prop where
  /-- It is a number of quarter turns. -/
  isQuarter : IsQuarter deg
  /-- It is not negative. -/
  nonneg : 0 ≤ value deg
  /-- It is less than a whole turn. -/
  lt_whole : value deg < 360

theorem isFirstTurn_normalizeDegrees (ha : IsQuarter a) : IsFirstTurn (normalizeDegrees a) := by
  obtain ⟨k, hk⟩ := ha
  have hnorm := value_normalizeDegrees hk
  have hlow : (0 : ℝ) ≤ (k % 4 : ℤ) := by exact_mod_cast Int.emod_nonneg k (by norm_num)
  have hhigh : ((k % 4 : ℤ) : ℝ) < 4 := by exact_mod_cast Int.emod_lt_of_pos k (by norm_num)
  refine ⟨⟨k % 4, hnorm⟩, ?_, ?_⟩
  · rw [hnorm]
    linarith
  · rw [hnorm]
    linarith

/-- No two of them differ by whole turns. -/
theorem IsFirstTurn.eq (ha : IsFirstTurn a) (hb : IsFirstTurn b) (h : SameTurn a b) : a = b := by
  obtain ⟨i, hi⟩ := h
  have ha0 := ha.nonneg
  have ha4 := ha.lt_whole
  rw [hi] at ha0 ha4
  have hlow : ((-1 : ℤ) : ℝ) < i := by
    push_cast
    linarith [hb.lt_whole]
  have hhigh : (i : ℝ) < (1 : ℤ) := by
    push_cast
    linarith [hb.nonneg]
  rw [Int.cast_lt] at hlow hhigh
  have hnone : i = 0 := by omega
  apply value_injective
  rw [hi, hnone]
  simp

/-- Whole turns make no difference. -/
theorem normalizeDegrees_congr (hb : IsQuarter b) (h : SameTurn a b) :
    normalizeDegrees a = normalizeDegrees b := by
  have ha := h.isQuarter hb
  apply (isFirstTurn_normalizeDegrees ha).eq (isFirstTurn_normalizeDegrees hb)
  exact ((sameTurn_normalizeDegrees ha).trans h).trans (sameTurn_normalizeDegrees hb).symm

theorem placeBox_congr (hb : IsQuarter b) (h : SameTurn a b) (r : Rect α) (x y : α) :
    placeBox r ⟨x, y, a⟩ = placeBox r ⟨x, y, b⟩ := by
  have hoffset : ∀ dx dy : α, rotateOffset dx dy a = rotateOffset dx dy b := by
    intro dx dy
    rw [rotateOffset, rotateOffset, normalizeDegrees_congr hb h]
  simp only [placeBox, hoffset]

/-! ### Placements -/

namespace Placement

variable {f g p q : Placement α}

/-- The placement is turned by one of the four quarter turns below a whole one. -/
def Normal (p : Placement α) : Prop := IsFirstTurn p.rotation

theorem Normal.square (hp : p.Normal) : p.Square := IsFirstTurn.isQuarter hp

theorem normal_origin : (origin : Placement α).Normal := by
  refine ⟨isQuarter_zero, ?_, ?_⟩
  · show 0 ≤ value (0 : α)
    rw [value_zero]
  · show value (0 : α) < 360
    rw [value_zero]
    norm_num

/-- What comes out of a frame is normal. -/
theorem normal_compose (hf : f.Square) (hg : g.Square) : (f.compose g).Normal := by
  obtain ⟨j, hj⟩ := hf
  obtain ⟨k, hk⟩ := hg
  have hsum : IsQuarter (f.rotation + g.rotation) := by
    refine ⟨j + k, ?_⟩
    rw [value_add, hj, hk]
    push_cast
    ring
  exact isFirstTurn_normalizeDegrees hsum

/-- So is what is brought into one. -/
theorem normal_localize (hf : f.Square) (hg : g.Square) : (f.localize g).Normal := by
  obtain ⟨j, hj⟩ := hf
  obtain ⟨k, hk⟩ := hg
  have hdiff : IsQuarter (g.rotation - f.rotation) := by
    refine ⟨k - j, ?_⟩
    rw [value_sub, hj, hk]
    push_cast
    ring
  exact isFirstTurn_normalizeDegrees hdiff

/-- Placements agree up to whole turns. -/
structure Alike (p q : Placement α) : Prop where
  /-- They are at one place across. -/
  x : p.x = q.x
  /-- They are at one place down. -/
  y : p.y = q.y
  /-- They turn alike. -/
  rotation : SameTurn p.rotation q.rotation

theorem move_injective (p : Placement α) : Function.Injective p.move := by
  intro z w h
  have hturned := add_left_cancel h
  exact mul_left_cancel₀ (IsQuarter.turn_ne_zero p.rotation) hturned

theorem Alike.move_eq (h : p.Alike q) (hq : q.Square) (z : ℂ) : p.move z = q.move z := by
  have hturn := (turn_eq_iff (h.rotation.isQuarter hq) hq).2 h.rotation
  have hpoint : p.point = q.point := by
    rw [point, point, h.x, h.y]
  rw [move, move, hturn, hpoint]

/-- Placements that are the same motion agree up to whole turns. -/
theorem alike_of_move (hp : p.Square) (hq : q.Square) (h : ∀ z, p.move z = q.move z) :
    p.Alike q := by
  have hpoint : p.point.complex = q.point.complex := by
    have hzero := h 0
    rwa [move, move, mul_zero, mul_zero, add_zero, add_zero] at hzero
  have hturn : turn p.rotation = turn q.rotation := by
    have hone := h 1
    rw [move, move, hpoint, mul_one, mul_one] at hone
    exact add_left_cancel hone
  constructor
  case x => exact value_injective (congrArg re hpoint)
  case y => exact value_injective (congrArg im hpoint)
  case rotation => exact (turn_eq_iff hp hq).1 hturn

theorem Alike.eq (h : p.Alike q) (hp : p.Normal) (hq : q.Normal) : p = q := by
  obtain ⟨px, py, pr⟩ := p
  obtain ⟨qx, qy, qr⟩ := q
  obtain ⟨hx, hy, hrotation⟩ := h
  have hr : pr = qr := IsFirstTurn.eq hp hq hrotation
  cases hx
  cases hy
  rw [hr]

/-- Normal placements that are the same motion are the same. -/
theorem eq_of_move (hp : p.Normal) (hq : q.Normal) (h : ∀ z, p.move z = q.move z) : p = q :=
  (alike_of_move hp.square hq.square h).eq hp hq

/-- What is placed alike in a frame lies at one place. -/
theorem Alike.compose_eq (h : p.Alike q) (hf : f.Square) (hq : q.Square) :
    f.compose p = f.compose q := by
  have hp : p.Square := h.rotation.isQuarter hq
  apply eq_of_move (normal_compose hf hp) (normal_compose hf hq)
  intro z
  rw [move_compose hf hp, move_compose hf hq, h.move_eq hq]

/-- What lies at one place is placed alike in its frame. -/
theorem alike_of_compose_eq (hf : f.Square) (hp : p.Square) (hq : q.Square)
    (h : f.compose p = f.compose q) : p.Alike q := by
  apply alike_of_move hp hq
  intro z
  apply f.move_injective
  rw [← move_compose hf hp, ← move_compose hf hq, h]

/-- What is brought into a frame and out of it again is where it was. -/
theorem compose_localize (hf : f.Square) (hg : g.Normal) : f.compose (f.localize g) = g :=
  eq_of_move (normal_compose hf (hf.localize hg.square)) hg (move_compose_localize hf hg.square)

/-- What is taken out of a frame and brought into it again is placed there as it was. -/
theorem localize_compose (hf : f.Square) (hg : g.Normal) : f.localize (f.compose g) = g := by
  have hout := normal_compose hf hg.square
  have hback := compose_localize hf hout
  exact (alike_of_compose_eq hf (hf.localize hout.square) hg.square hback).eq
    (normal_localize hf hout.square) hg

/-- The angles of a frame and of what is placed in it add up, to whole turns. -/
theorem sameTurn_compose (hf : f.Square) (hp : p.Square) :
    SameTurn (f.compose p).rotation (f.rotation + p.rotation) := by
  obtain ⟨j, hj⟩ := hf
  obtain ⟨k, hk⟩ := hp
  refine sameTurn_normalizeDegrees ⟨j + k, ?_⟩
  rw [value_add, hj, hk]
  push_cast
  ring

/-- What is turned alike in frames that turn alike is turned alike there. -/
theorem sameTurn_of_compose (hf : f.Square) (hg : g.Square) (hp : p.Square) (hq : q.Square)
    (hframe : SameTurn f.rotation g.rotation)
    (h : (f.compose p).rotation = (g.compose q).rotation) : SameTurn p.rotation q.rotation := by
  have hsum : SameTurn (f.rotation + p.rotation) (g.rotation + q.rotation) := by
    refine (sameTurn_compose hf hp).symm.trans ?_
    rw [h]
    exact sameTurn_compose hg hq
  obtain ⟨j, hj⟩ := hframe
  obtain ⟨k, hk⟩ := hsum
  rw [value_add, value_add] at hk
  refine ⟨k - j, ?_⟩
  push_cast
  linarith

theorem compose_origin (hf : f.Normal) : f.compose origin = f := by
  apply eq_of_move (normal_compose hf.square square_origin) hf
  intro z
  rw [move_compose hf.square square_origin, move_origin]

end Placement

end Schematic
