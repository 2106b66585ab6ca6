import Schematic.Proofs.Number.Exact
import Schematic.Routing.Occupancy

/-!
# The cells that wires take

What a cell holds is a list of nets with axes, and drawing a segment only adds
to these lists.  So the axes that other nets have taken in a cell are told by
all the segments drawn so far, in whatever order.

On exact coordinates a segment along a grid line takes every cell it passes: all
of them along itself, and those at its ends along both axes.

## Main definitions

* `Occupancy.entriesAt` — the nets in a cell.
* `Point.OnRun` — a point of an axis-parallel segment.
* `Direction.Crosses` — a direction across an axis-parallel segment.
* `AxisParallel` — a horizontal or vertical segment, not too short to be drawn.

## Main statements

* `Occupancy.mem_entriesAt_addSegment` — what a segment adds.
* `Occupancy.runsAlong_foreign` — the axes taken by other nets.
* `AxisParallel.taken` — a cell on a segment is taken so that it can only be crossed
  between the ends, at right angles.
-/

namespace Schematic

open Scalar

/-- A whole number that fits into 64 bits. -/
def IsInt64 (n : Int) : Prop := -9223372036854775808 ≤ n ∧ n ≤ 9223372036854775807

/-- A cell whose column and row fit into 64 bits. -/
def Cell.InRange (c : Cell) : Prop := IsInt64 c.1 ∧ IsInt64 c.2

theorem isInt64_clampInt64 (n : Int) : IsInt64 (clampInt64 n) := by
  unfold clampInt64 IsInt64
  split
  · omega
  · split <;> omega

theorem clampInt64_of_isInt64 {n : Int} (h : IsInt64 n) : clampInt64 n = n := by
  unfold IsInt64 at h
  rw [clampInt64, if_neg (by omega), if_neg (by omega)]

theorem clampInt64_mono {m n : Int} (h : m ≤ n) : clampInt64 m ≤ clampInt64 n := by
  unfold clampInt64
  split <;> split <;> (try split) <;> (try split) <;> omega

theorem Direction.runsAlong_union (d : Direction) (a b : Axes) :
    d.runsAlong (a.union b) = (d.runsAlong a || d.runsAlong b) := by cases d <;> rfl

theorem Direction.runsAlong_none (d : Direction) : d.runsAlong .none = false := by
  cases d <;> rfl

theorem Direction.runsAlong_both (d : Direction) : d.runsAlong .both = true := by
  cases d <;> rfl

namespace Occupancy

/-! ### What a cell holds -/

section Entries

variable {α : Type}

/-- The nets in a cell, with the axes they have taken. -/
def entriesAt (o : Occupancy α) (c : Cell) : List (NetId × Axes) := o.cells.getD c []

/-- Another net runs along a direction in a cell if one of its segments does. -/
theorem runsAlong_foreign {o : Occupancy α} {c : Cell} {net : NetId} {d : Direction} :
    d.runsAlong (o.foreign c net) = true ↔
      ∃ e ∈ o.entriesAt c, e.1 ≠ net ∧ d.runsAlong e.2 = true := by
  have hfold : ∀ (entries : List (NetId × Axes)) (axes : Axes),
      d.runsAlong (entries.foldl
        (fun axes e => if e.1 = net then axes else axes.union e.2) axes) = true ↔
      d.runsAlong axes = true ∨ ∃ e ∈ entries, e.1 ≠ net ∧ d.runsAlong e.2 = true := by
    intro entries
    induction entries with
    | nil => simp
    | cons e entries ih =>
      intro axes
      rw [List.foldl_cons, ih]
      by_cases he : e.1 = net
      · simp [he]
      · simp [he, Direction.runsAlong_union, or_assoc]
  rw [foreign, hfold, Direction.runsAlong_none]
  simp [entriesAt]

theorem isEmpty_iff_runsAlong {a : Axes} :
    a.isEmpty = false ↔ ∃ d : Direction, d.runsAlong a = true := by
  constructor
  · intro h
    cases hx : a.horizontal with
    | true => exact ⟨.left, hx⟩
    | false =>
      cases hy : a.vertical with
      | true => exact ⟨.up, hy⟩
      | false => simp [Axes.isEmpty, hx, hy] at h
  · rintro ⟨d, hd⟩
    cases d <;> simp_all [Axes.isEmpty, Direction.runsAlong]

variable [Scalar α]

/-- A segment adds its net to the cells it takes, along the axes it takes there,
and nothing else changes. -/
theorem mem_entriesAt_addSegment {o : Occupancy α} {net : NetId} {a b : Point α} {c : Cell}
    {e : NetId × Axes} :
    e ∈ (o.addSegment net a b).entriesAt c ↔
      e ∈ o.entriesAt c ∨ ∃ x ∈ segmentCells o.pitch a b, x.1 = c ∧ e = (net, x.2) := by
  have hfold : ∀ (xs : List (Cell × Axes)) (cells : Std.HashMap Cell (List (NetId × Axes))),
      e ∈ (xs.foldl (take net) cells).getD c [] ↔
        e ∈ cells.getD c [] ∨ ∃ x ∈ xs, x.1 = c ∧ e = (net, x.2) := by
    intro xs
    induction xs with
    | nil => simp
    | cons x xs ih =>
      intro cells
      have htake : e ∈ (take net cells x).getD c [] ↔
          e ∈ cells.getD c [] ∨ x.1 = c ∧ e = (net, x.2) := by
        rw [take, Std.HashMap.getD_insert]
        by_cases hx : x.1 = c
        · simp [hx, or_comm]
        · simp [hx]
      rw [List.foldl_cons, ih, htake, or_assoc]
      simp
  exact hfold _ _

end Entries

/-! ### The cells of a run -/

section Exact

open ExactScalar

variable {α : Type} [Scalar α] [ExactScalar α] {pitch : α} {r : StraightRun α}

/-- A run on a grid line takes the cells between its ends. -/
theorem mem_runCells {i k : Int} (hpitch : 0 < value pitch)
    (hacross : value r.across = k * value pitch) (hk : IsInt64 k) (hi : IsInt64 i)
    (hlow : value r.low ≤ i * value pitch) (hhigh : i * value pitch ≤ value r.high) :
    (if r.horizontal then (i, k) else (k, i), axesAlong pitch r i) ∈ runCells pitch r := by
  have hdiv : value (r.across / pitch) = k := by
    rw [value_div _ _ hpitch.ne', hacross, mul_div_cancel_right₀ _ hpitch.ne']
  have hline : onGrid pitch r.across = true := by
    simp only [onGrid, decide_eq_true_eq, le_iff, value_abs, value_sub, value_mul, value_round,
      hdiv, roundAway_intCast, hacross, sub_self, abs_zero, value_decimal]
    positivity
  have hindex : Scalar.toIndex (Scalar.round (r.across / pitch)) = k := by
    rw [Scalar.toIndex, truncate_eq, value_round, hdiv, roundAway_intCast, wholePart_intCast,
      clampInt64_of_isInt64 hk]
  have hfirst : Scalar.toIndex (Scalar.ceil (r.low / pitch - 1e-6)) ≤ i := by
    rw [Scalar.toIndex, truncate_eq, value_ceil, wholePart_intCast, ← clampInt64_of_isInt64 hi]
    refine clampInt64_mono (Int.ceil_le.2 ?_)
    rw [value_sub, value_div _ _ hpitch.ne', value_decimal]
    have : value r.low / value pitch ≤ i := (div_le_iff₀ hpitch).2 hlow
    have hpositive : (0 : ℝ) ≤ (1 : ℕ) / 10 ^ 6 := by positivity
    linarith
  have hlast : i ≤ Scalar.toIndex (Scalar.floor (r.high / pitch + 1e-6)) := by
    rw [Scalar.toIndex, truncate_eq, value_floor, wholePart_intCast, ← clampInt64_of_isInt64 hi]
    refine clampInt64_mono (Int.le_floor.2 ?_)
    rw [value_add, value_div _ _ hpitch.ne', value_decimal]
    have : (i : ℝ) ≤ value r.high / value pitch := (le_div_iff₀ hpitch).2 hhigh
    have hpositive : (0 : ℝ) ≤ (1 : ℕ) / 10 ^ 6 := by positivity
    linarith
  simp only [runCells, hline, if_true, hindex, List.mem_map, List.mem_range]
  refine ⟨(i - Scalar.toIndex (Scalar.ceil (r.low / pitch - 1e-6))).toNat, by omega, ?_⟩
  rw [Int.toNat_of_nonneg (by omega), add_sub_cancel]

omit [ExactScalar α] in
/-- A run takes its own axis at least. -/
theorem runsAlong_axesAlong {i : Int} {d : Direction} (h : d.runsAlong r.axes = true) :
    d.runsAlong (axesAlong pitch r i) = true := by
  simp only [axesAlong]
  split
  · exact d.runsAlong_both
  · exact h

/-- At its ends a run takes both axes. -/
theorem axesAlong_end {i : Int}
    (h : value r.low = i * value pitch ∨ value r.high = i * value pitch) :
    axesAlong pitch r i = .both := by
  have hzero : ∀ x : α, value x = i * value pitch →
      Scalar.abs (Scalar.ofInt i * pitch - x) ≤ (1e-6 : α) := by
    intro x hx
    rw [le_iff, value_abs, value_sub, value_mul, value_ofInt, hx, sub_self, abs_zero,
      value_decimal]
    positivity
  simp only [axesAlong]
  rw [if_pos]
  rcases h with h | h
  · simp [hzero _ h]
  · simp [hzero _ h]

/-- A direction that a run leaves free in a cell is not along it, and the cell is
none of the ends. -/
theorem free_of_axesAlong {i : Int} {d : Direction}
    (h : d.runsAlong (axesAlong pitch r i) = false) :
    d.runsAlong r.axes = false ∧ value r.low ≠ i * value pitch ∧
      value r.high ≠ i * value pitch := by
  refine ⟨Bool.eq_false_iff.2 fun hd => ?_, fun hlow => ?_, fun hhigh => ?_⟩
  · rw [runsAlong_axesAlong hd] at h
    exact Bool.false_ne_true h.symm
  · rw [axesAlong_end (.inl hlow), d.runsAlong_both] at h
    exact Bool.false_ne_true h.symm
  · rw [axesAlong_end (.inr hhigh), d.runsAlong_both] at h
    exact Bool.false_ne_true h.symm

end Exact

end Occupancy

/-! ### Axis-parallel segments -/

instance instDecidableEqPoint {α : Type} [DecidableEq α] : DecidableEq (Point α) := fun p q =>
  decidable_of_iff (p.x = q.x ∧ p.y = q.y) (by cases p; cases q; simp)

/-- Whether a number lies between two others. -/
def Between {α : Type} [LE α] (a x b : α) : Prop := a ≤ x ∧ x ≤ b ∨ b ≤ x ∧ x ≤ a

/-- A point lies on an axis-parallel segment, its ends included. -/
def Point.OnRun {α : Type} [LE α] (p a b : Point α) : Prop :=
  Between a.x p.x b.x ∧ Between a.y p.y b.y

/-- A direction is across a horizontal or a vertical segment. -/
def Direction.Crosses {α : Type} (d : Direction) (a b : Point α) : Prop :=
  (a.y = b.y → d = .up ∨ d = .down) ∧ (a.x = b.x → d = .left ∨ d = .right)

/-- The point of a grid of some pitch in a cell. -/
def Cell.point {α : Type} [Scalar α] (pitch : α) (c : Cell) : Point α :=
  ⟨Scalar.ofInt c.1 * pitch, Scalar.ofInt c.2 * pitch⟩

/-- A horizontal or vertical segment whose ends do not count as one point. -/
structure AxisParallel {α : Type} [Scalar α] (a b : Point α) : Prop where
  /-- The ends are apart. -/
  apart : a.near b 1e-9 = false
  /-- They lie on a common line along an axis. -/
  aligned : a.y = b.y ∨ a.x = b.x

namespace AxisParallel

open ExactScalar

variable {α : Type} [Scalar α] [ExactScalar α] {pitch : α} {a b : Point α} {c : Cell}

theorem between_iff {x y z : α} :
    Between x y z ↔ min (value x) (value z) ≤ value y ∧ value y ≤ max (value x) (value z) := by
  simp only [Between, le_iff]
  grind

theorem eq_of_between {x y : α} (h : Between x y x) : y = x := by
  simp only [Between, or_self, le_iff] at h
  exact value_injective (le_antisymm h.2 h.1)

theorem abs_sub_le_tolerance {x y : α} (h : x = y) : Scalar.abs (x - y) ≤ (1e-9 : α) := by
  rw [le_iff, value_abs, value_sub, h, sub_self, abs_zero, value_decimal]
  positivity

theorem ofSegment?_horizontal (hfar : a.near b 1e-9 = false) (hy : a.y = b.y) :
    StraightRun.ofSegment? a b = some ⟨true, a.y, Scalar.min a.x b.x, Scalar.max a.x b.x⟩ := by
  rw [StraightRun.ofSegment?, hfar, if_neg Bool.false_ne_true, if_pos (abs_sub_le_tolerance hy)]

theorem ofSegment?_vertical (hfar : a.near b 1e-9 = false) (hx : a.x = b.x) :
    StraightRun.ofSegment? a b = some ⟨false, a.x, Scalar.min a.y b.y, Scalar.max a.y b.y⟩ := by
  have hxnear := abs_sub_le_tolerance hx
  have hyfar : ¬Scalar.abs (a.y - b.y) ≤ (1e-9 : α) := fun hynear => by
    simp [Point.near, hxnear, hynear] at hfar
  rw [StraightRun.ofSegment?, hfar, if_neg Bool.false_ne_true, if_neg hyfar, if_pos hxnear]

theorem segmentCells_of_run {r : StraightRun α} (hpitch : 0 < value pitch)
    (h : StraightRun.ofSegment? a b = some r) :
    Occupancy.segmentCells pitch a b = Occupancy.runCells pitch r := by
  have hpos : ¬pitch ≤ 0 := by
    rw [le_iff, value_literal, Nat.cast_zero, not_le]
    exact hpitch
  rw [Occupancy.segmentCells, if_neg hpos, h]

theorem not_point (h : a.near b 1e-9 = false) : ¬(a.x = b.x ∧ a.y = b.y) := fun ⟨hx, hy⟩ => by
  simp [Point.near, abs_sub_le_tolerance hx, abs_sub_le_tolerance hy] at h

/-- A number that is no end of the interval between two others is none of
them. -/
theorem ne_of_ends {x y : α} {v : ℝ} (hlow : value (Scalar.min x y) ≠ v)
    (hhigh : value (Scalar.max x y) ≠ v) : v ≠ value x ∧ v ≠ value y := by
  rw [value_min] at hlow
  rw [value_max] at hhigh
  grind

/-- A cell that a segment passes is taken: a direction that stays free there is
across the segment, and the cell is none of its ends. -/
theorem taken (h : AxisParallel a b) (hpitch : 0 < value pitch) (hc : c.InRange)
    (hon : (c.point pitch).OnRun a b) :
    ∃ axes, (c, axes) ∈ Occupancy.segmentCells pitch a b ∧
      ∀ d : Direction, d.runsAlong axes = false →
        d.Crosses a b ∧ c.point pitch ≠ a ∧ c.point pitch ≠ b := by
  obtain ⟨honx, hony⟩ := hon
  have hx : value (c.point pitch).x = c.1 * value pitch := by
    rw [Cell.point, value_mul, value_ofInt]
  have hy : value (c.point pitch).y = c.2 * value pitch := by
    rw [Cell.point, value_mul, value_ofInt]
  rcases h.aligned with hline | hline
  · have hrun := ofSegment?_horizontal h.apart hline
    have hacross : value a.y = c.2 * value pitch := by
      rw [← hline] at hony
      rw [← hy, eq_of_between hony]
    rw [between_iff, hx, ← value_min, ← value_max] at honx
    refine ⟨_, segmentCells_of_run hpitch hrun ▸
      Occupancy.mem_runCells hpitch hacross hc.2 hc.1 honx.1 honx.2, fun d hd => ?_⟩
    obtain ⟨hfree, hlow, hhigh⟩ := Occupancy.free_of_axesAlong hd
    obtain ⟨hnea, hneb⟩ := ne_of_ends hlow hhigh
    refine ⟨⟨fun _ => ?_, fun hx => absurd ⟨hx, hline⟩ (not_point h.apart)⟩, ?_, ?_⟩
    · cases d with
      | up => exact .inl rfl
      | down => exact .inr rfl
      | left => exact Bool.noConfusion hfree
      | right => exact Bool.noConfusion hfree
    · rintro rfl
      exact hnea hx.symm
    · rintro rfl
      exact hneb hx.symm
  · have hrun := ofSegment?_vertical h.apart hline
    have hacross : value a.x = c.1 * value pitch := by
      rw [← hline] at honx
      rw [← hx, eq_of_between honx]
    rw [between_iff, hy, ← value_min, ← value_max] at hony
    refine ⟨_, segmentCells_of_run hpitch hrun ▸
      Occupancy.mem_runCells hpitch hacross hc.1 hc.2 hony.1 hony.2, fun d hd => ?_⟩
    obtain ⟨hfree, hlow, hhigh⟩ := Occupancy.free_of_axesAlong hd
    obtain ⟨hnea, hneb⟩ := ne_of_ends hlow hhigh
    refine ⟨⟨fun hy => absurd ⟨hline, hy⟩ (not_point h.apart), fun _ => ?_⟩, ?_, ?_⟩
    · cases d with
      | up => exact Bool.noConfusion hfree
      | down => exact Bool.noConfusion hfree
      | left => exact .inl rfl
      | right => exact .inr rfl
    · rintro rfl
      exact hnea hy.symm
    · rintro rfl
      exact hneb hy.symm

end AxisParallel

end Schematic
