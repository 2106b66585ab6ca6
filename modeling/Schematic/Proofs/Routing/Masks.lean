import Schematic.Drawing.Assembly
import Schematic.Proofs.Routing.Taken

/-!
# The axes that other nets have taken

What other nets have taken in a cell is the union of what each of their segments takes
there.  So it does not matter in which order the segments are drawn, nor how often, nor
what the net itself draws.

On exact coordinates a segment from one grid point to another one on the same grid line
takes both axes in the cells of its ends, its own axis in the cells between them, and
nothing in any other cell.  This is so if at least one cell of the segment has a column and
a row of 64 bits; a segment that lies beyond that range altogether is moved to the edge
of it, and takes cells there that are none of its own.

## Main definitions

* `Occupancy.MaskLaws` — the drawn segments count as a set, without those of the net itself.
* `GridRun` — a segment between two points of one grid line.
* `GridRun.Marked` — a segment takes what it should in a cell.

## Main statements

* `Occupancy.runsAlong_foreign_addWires` — what other nets take, segment by segment.
* `Occupancy.mem_runCells_iff` — the cells of a run between grid points.
* `GridRun.marked_addSegment` — a segment takes what it should in every cell.
* `Occupancy.maskLaws_and_marked` — how drawing changes what other nets have taken.
-/

namespace Schematic

open Scalar

variable {α : Type} [Scalar α]

/-- Sets of axes are the same if the same directions run along them. -/
theorem Axes.eq_of_runsAlong {a b : Axes}
    (h : ∀ d : Direction, d.runsAlong a = true ↔ d.runsAlong b = true) : a = b := by
  have hx : a.horizontal = b.horizontal := Bool.eq_iff_iff.2 (h .left)
  have hy : a.vertical = b.vertical := Bool.eq_iff_iff.2 (h .up)
  cases a
  cases b
  exact congr (congrArg Axes.mk hx) hy

namespace Occupancy

/-! ### Segment by segment -/

/-- The entries of a cell are those from before and those of all wires. -/
theorem mem_entriesAt_addWires {o : Occupancy α} {ws : List (Wire α)} {c : Cell}
    {e : NetId × Axes} :
    e ∈ (o.addWires ws).entriesAt c ↔ e ∈ o.entriesAt c ∨
      ∃ w ∈ ws, ∃ x ∈ segmentCells o.pitch w.a w.b, x.1 = c ∧ e = (w.net, x.2) := by
  induction ws generalizing o with
  | nil =>
    show e ∈ o.entriesAt c ↔ _
    simp only [List.not_mem_nil, false_and, exists_false, or_false]
  | cons w ws ih =>
    show e ∈ ((o.addSegment w.net w.a w.b).addWires ws).entriesAt c ↔ _
    -- drawing keeps the pitch
    have hpitch : (o.addSegment w.net w.a w.b).pitch = o.pitch := rfl
    rw [ih, mem_entriesAt_addSegment, hpitch, List.exists_mem_cons_iff, or_assoc]

/-- A direction is taken by other nets if it was before or if a wire of another net takes it. -/
theorem runsAlong_foreign_addWires {o : Occupancy α} {ws : List (Wire α)} {c : Cell} {net : NetId}
    {d : Direction} :
    d.runsAlong ((o.addWires ws).foreign c net) = true ↔
      d.runsAlong (o.foreign c net) = true ∨ ∃ w ∈ ws, w.net ≠ net ∧
        ∃ x ∈ segmentCells o.pitch w.a w.b, x.1 = c ∧ d.runsAlong x.2 = true := by
  rw [runsAlong_foreign, runsAlong_foreign]
  constructor
  · rintro ⟨e, he, hnet, hd⟩
    rcases mem_entriesAt_addWires.1 he with he | ⟨w, hw, x, hx, hc, rfl⟩
    · exact .inl ⟨e, he, hnet, hd⟩
    · exact .inr ⟨w, hw, hnet, x, hx, hc, hd⟩
  · rintro (⟨e, he, hnet, hd⟩ | ⟨w, hw, hnet, x, hx, hc, hd⟩)
    · exact ⟨e, mem_entriesAt_addWires.2 (.inl he), hnet, hd⟩
    · exact ⟨(w.net, x.2), mem_entriesAt_addWires.2 (.inr ⟨w, hw, x, hx, hc, rfl⟩), hnet, hd⟩

/-- Only which wires of other nets are drawn matters. -/
theorem foreign_addWires_congr (o : Occupancy α) (c : Cell) {net : NetId} {ws ws' : List (Wire α)}
    (h : ∀ w : Wire α, w.net ≠ net → (w ∈ ws ↔ w ∈ ws')) :
    (o.addWires ws).foreign c net = (o.addWires ws').foreign c net := by
  apply Axes.eq_of_runsAlong
  intro d
  rw [runsAlong_foreign_addWires, runsAlong_foreign_addWires]
  apply or_congr_right
  constructor
  · rintro ⟨w, hw, hnet, htakes⟩
    exact ⟨w, (h w hnet).1 hw, hnet, htakes⟩
  · rintro ⟨w, hw, hnet, htakes⟩
    exact ⟨w, (h w hnet).2 hw, hnet, htakes⟩

/-- What other nets have taken in a cell is told by the set of their wires. -/
structure MaskLaws (o : Occupancy α) (c : Cell) (net : NetId) : Prop where
  /-- The order of the wires does not matter. -/
  permuted : ∀ ws ws' : List (Wire α), ws.Perm ws' →
    (o.addWires ws).foreign c net = (o.addWires ws').foreign c net
  /-- Nor does it matter how often a wire is drawn. -/
  repeated : ∀ ws ws' : List (Wire α), (∀ w, w ∈ ws ↔ w ∈ ws') →
    (o.addWires ws).foreign c net = (o.addWires ws').foreign c net
  /-- Nor do the wires of the net itself matter. -/
  own : ∀ ws ws' : List (Wire α),
    ws.filter (fun w => w.net ≠ net) = ws'.filter (fun w => w.net ≠ net) →
      (o.addWires ws).foreign c net = (o.addWires ws').foreign c net

theorem maskLaws (o : Occupancy α) (c : Cell) (net : NetId) : o.MaskLaws c net where
  permuted := by
    intro ws ws' hperm
    apply foreign_addWires_congr
    intro w _
    exact hperm.mem_iff
  repeated := by
    intro ws ws' hsame
    apply foreign_addWires_congr
    intro w _
    exact hsame w
  own := by
    intro ws ws' hothers
    apply foreign_addWires_congr
    intro w hnet
    have hmem : ∀ vs : List (Wire α), w ∈ vs.filter (fun w => w.net ≠ net) ↔ w ∈ vs := by
      intro vs
      rw [List.mem_filter, decide_eq_true_eq]
      exact and_iff_left hnet
    rw [← hmem ws, hothers, hmem]

/-! ### The cells of a run between grid points -/

section Exact

open ExactScalar

variable [ExactScalar α] {pitch : α} {r : StraightRun α} {line low high : ℤ}

/-- A grid that is coarser than the tolerance has a pitch. -/
theorem pos_of_tolerance_lt (hpitch : (1e-6 : α) < pitch) : 0 < value pitch := by
  rw [lt_iff, value_decimal] at hpitch
  exact lt_of_le_of_lt (by positivity) hpitch

/-- Two grid lines are farther apart than the tolerance, so that only the cell of an end counts as
an end. -/
theorem abs_sub_le_iff_eq (hpitch : (1e-6 : α) < pitch) {i j : ℤ} {v : α}
    (hv : value v = j * value pitch) :
    Scalar.abs (Scalar.ofInt i * pitch - v) ≤ (1e-6 : α) ↔ i = j := by
  have hpos := pos_of_tolerance_lt hpitch
  rw [lt_iff] at hpitch
  rw [le_iff, value_abs, value_sub, value_mul, value_ofInt, hv, ← sub_mul, abs_mul,
    abs_of_pos hpos]
  constructor
  · intro h
    by_contra hne
    have hone : (1 : ℝ) ≤ |(i : ℝ) - j| := by
      exact_mod_cast Int.one_le_abs (sub_ne_zero.2 hne)
    have hfar : value pitch ≤ |(i : ℝ) - j| * value pitch :=
      le_mul_of_one_le_left hpos.le hone
    linarith
  · rintro rfl
    rw [sub_self, abs_zero, zero_mul, value_decimal]
    positivity

/-- The cells of a run whose ends are grid points, as far as columns and rows have 64 bits. -/
theorem mem_runCells_iff (hpitch : (1e-6 : α) < pitch)
    (hacross : value r.across = line * value pitch) (hlow : value r.low = low * value pitch)
    (hhigh : value r.high = high * value pitch) {x : Cell × Axes} :
    x ∈ runCells pitch r ↔ ∃ i, clampInt64 low ≤ i ∧ i ≤ clampInt64 high ∧
      x = (if r.horizontal then (i, clampInt64 line) else (clampInt64 line, i),
        if i = low ∨ i = high then .both else r.axes) := by
  have hpos := pos_of_tolerance_lt hpitch
  have hsmall : value (1e-6 : α) = 1 / 10 ^ 6 := by
    rw [value_decimal, Nat.cast_one]
  have hdiv : ∀ {v : α} {j : ℤ}, value v = j * value pitch → value (v / pitch) = j := by
    intro v j hv
    rw [value_div _ _ hpos.ne', hv, mul_div_cancel_right₀ _ hpos.ne']
  have hline : onGrid pitch r.across = true := by
    unfold onGrid
    rw [decide_eq_true_eq, le_iff, value_abs, value_sub, value_mul, value_round, hdiv hacross,
      roundAway_intCast, hacross, sub_self, abs_zero, hsmall]
    positivity
  have hindex : Scalar.toIndex (Scalar.round (r.across / pitch)) = clampInt64 line := by
    rw [Scalar.toIndex, truncate_eq, value_round, hdiv hacross, roundAway_intCast,
      wholePart_intCast]
  -- the tolerance is less than a cell
  have hfirst : Scalar.toIndex (Scalar.ceil (r.low / pitch - 1e-6)) = clampInt64 low := by
    have hceil : ⌈(low : ℝ) - 1 / 10 ^ 6⌉ = low := by
      rw [Int.ceil_eq_iff]
      constructor <;> linarith
    rw [Scalar.toIndex, truncate_eq, value_ceil, wholePart_intCast, value_sub, hdiv hlow, hsmall,
      hceil]
  have hlast : Scalar.toIndex (Scalar.floor (r.high / pitch + 1e-6)) = clampInt64 high := by
    have hfloor : ⌊(high : ℝ) + 1 / 10 ^ 6⌋ = high := by
      rw [Int.floor_eq_iff]
      constructor <;> linarith
    rw [Scalar.toIndex, truncate_eq, value_floor, wholePart_intCast, value_add, hdiv hhigh, hsmall,
      hfloor]
  have haxes : ∀ i : ℤ, axesAlong pitch r i = if i = low ∨ i = high then .both else r.axes := by
    intro i
    unfold axesAlong
    simp only [Bool.or_eq_true, decide_eq_true_eq, abs_sub_le_iff_eq hpitch hlow,
      abs_sub_le_iff_eq hpitch hhigh]
  unfold runCells
  rw [if_pos hline]
  simp only [hindex, hfirst, hlast, haxes, List.mem_map, List.mem_range]
  constructor
  · rintro ⟨n, hn, rfl⟩
    exact ⟨clampInt64 low + n, by omega, by omega, rfl⟩
  · rintro ⟨i, hi, hi', rfl⟩
    refine ⟨(i - clampInt64 low).toNat, by omega, ?_⟩
    have hi : clampInt64 low + ((i - clampInt64 low).toNat : ℤ) = i := by omega
    rw [hi]

end Exact

end Occupancy

/-! ### Segments between grid points -/

/-- A segment between two points of one grid line. -/
structure GridRun where
  /-- Whether it is horizontal. -/
  horizontal : Bool
  /-- The row of a horizontal one, the column of a vertical one. -/
  line : ℤ
  /-- The column or row of its first end. -/
  start : ℤ
  /-- The column or row of its second end. -/
  stop : ℤ
  deriving DecidableEq, Repr

namespace GridRun

/-- The cell at a place along the line of a segment. -/
def cell (s : GridRun) (i : ℤ) : Cell := if s.horizontal then (i, s.line) else (s.line, i)

/-- The axis of a segment. -/
def axes (s : GridRun) : Axes := if s.horizontal then .alongX else .alongY

/-- A cell at which a segment ends. -/
def EndsIn (s : GridRun) (c : Cell) : Prop := c = s.cell s.start ∨ c = s.cell s.stop

/-- A cell that a segment passes strictly between its ends. -/
def Inside (s : GridRun) (c : Cell) : Prop :=
  ∃ i, c = s.cell i ∧ min s.start s.stop < i ∧ i < max s.start s.stop

/-- A segment passes at least one cell that has a column and a row of 64 bits. -/
def Reachable (s : GridRun) : Prop := ∃ c : Cell, c.InRange ∧ (s.EndsIn c ∨ s.Inside c)

/-- The segment from its second end to its first one. -/
def turned (s : GridRun) : GridRun := { s with start := s.stop, stop := s.start }

/-- What a segment adds in a cell to what nets other than `net` have taken: both axes at its ends,
its own one between them, and nothing elsewhere. -/
structure Marked (s : GridRun) (o o' : Occupancy α) (net : NetId) (c : Cell) : Prop where
  /-- At an end both axes are taken. -/
  ends : s.EndsIn c → o'.foreign c net = .both
  /-- Between the ends only the axis of the segment is added. -/
  inside : s.Inside c → o'.foreign c net = (o.foreign c net).union s.axes
  /-- In any other cell nothing changes. -/
  elsewhere : ¬ (s.EndsIn c ∨ s.Inside c) → o'.foreign c net = o.foreign c net

variable {s : GridRun} {c : Cell}

theorem cell_injective (s : GridRun) : Function.Injective s.cell := by
  intro i j h
  unfold cell at h
  split at h
  · exact (Prod.mk.inj h).1
  · exact (Prod.mk.inj h).2

theorem endsIn_or_inside_iff : s.EndsIn c ∨ s.Inside c ↔
    ∃ i, c = s.cell i ∧ min s.start s.stop ≤ i ∧ i ≤ max s.start s.stop := by
  constructor
  · rintro ((rfl | rfl) | ⟨i, rfl, hlow, hhigh⟩)
    · exact ⟨s.start, rfl, by omega, by omega⟩
    · exact ⟨s.stop, rfl, by omega, by omega⟩
    · exact ⟨i, rfl, by omega, by omega⟩
  · rintro ⟨i, rfl, hlow, hhigh⟩
    by_cases hstart : i = s.start
    · exact .inl (.inl (by rw [hstart]))
    · by_cases hstop : i = s.stop
      · exact .inl (.inr (by rw [hstop]))
      · exact .inr ⟨i, rfl, by omega, by omega⟩

theorem inRange_cell_iff {i : ℤ} : (s.cell i).InRange ↔ IsInt64 s.line ∧ IsInt64 i := by
  unfold cell Cell.InRange
  split
  · exact and_comm
  · exact Iff.rfl

theorem endsIn_turned : s.turned.EndsIn c ↔ s.EndsIn c := or_comm

theorem inside_turned : s.turned.Inside c ↔ s.Inside c := by
  show (∃ i, c = s.cell i ∧ min s.stop s.start < i ∧ i < max s.stop s.start) ↔ _
  rw [min_comm, max_comm]
  exact Iff.rfl

omit [Scalar α] in
theorem Marked.of_turned {o o' : Occupancy α} {net : NetId} (h : s.turned.Marked o o' net c) :
    s.Marked o o' net c where
  ends hends := h.ends (endsIn_turned.2 hends)
  inside hinside := h.inside (inside_turned.2 hinside)
  elsewhere hnone := h.elsewhere (by rwa [endsIn_turned, inside_turned])

section Exact

open ExactScalar

variable [ExactScalar α] {pitch : α}

/-- The straight run of a segment between different grid points. -/
theorem exists_run (s : GridRun) (hpitch : (1e-6 : α) < pitch) (hne : s.start ≠ s.stop) :
    ∃ r : StraightRun α,
      StraightRun.ofSegment? ((s.cell s.start).point pitch) ((s.cell s.stop).point pitch) =
        some r ∧
      r.horizontal = s.horizontal ∧ value r.across = s.line * value pitch ∧
      value r.low = (min s.start s.stop : ℤ) * value pitch ∧
      value r.high = (max s.start s.stop : ℤ) * value pitch := by
  have hpos := Occupancy.pos_of_tolerance_lt hpitch
  have hvalue : ∀ i : ℤ, value (Scalar.ofInt i * pitch) = i * value pitch := by
    intro i
    rw [value_mul, value_ofInt]
  have hmin : value (Scalar.min (Scalar.ofInt s.start * pitch) (Scalar.ofInt s.stop * pitch)) =
      (min s.start s.stop : ℤ) * value pitch := by
    rw [value_min, hvalue, hvalue, Int.cast_min, min_mul_of_nonneg _ _ hpos.le]
  have hmax : value (Scalar.max (Scalar.ofInt s.start * pitch) (Scalar.ofInt s.stop * pitch)) =
      (max s.start s.stop : ℤ) * value pitch := by
    rw [value_max, hvalue, hvalue, Int.cast_max, max_mul_of_nonneg _ _ hpos.le]
  -- the ends are a cell apart at least
  have hfar : ¬ Scalar.abs (Scalar.ofInt s.start * pitch - Scalar.ofInt s.stop * pitch) ≤
      (1e-9 : α) := by
    intro hnear
    apply hne
    apply (Occupancy.abs_sub_le_iff_eq hpitch (hvalue s.stop)).1
    rw [le_iff] at hnear ⊢
    apply hnear.trans
    rw [value_decimal, value_decimal]
    norm_num
  cases hs : s.horizontal with
  | true =>
    have hnear : Point.near ((s.cell s.start).point pitch) ((s.cell s.stop).point pitch) 1e-9 =
        false := by
      unfold Point.near cell Cell.point
      rw [hs]
      simp only [if_true, decide_eq_false hfar, Bool.false_and]
    refine ⟨_, AxisParallel.ofSegment?_horizontal hnear ?_, rfl, ?_⟩
    · simp only [cell, hs, if_true, Cell.point]
    · simp only [cell, hs, if_true, Cell.point]
      exact ⟨hvalue _, hmin, hmax⟩
  | false =>
    have hnear : Point.near ((s.cell s.start).point pitch) ((s.cell s.stop).point pitch) 1e-9 =
        false := by
      unfold Point.near cell Cell.point
      rw [hs]
      simp only [Bool.false_eq_true, if_false, decide_eq_false hfar, Bool.and_false]
    refine ⟨_, AxisParallel.ofSegment?_vertical hnear ?_, rfl, ?_⟩
    · simp only [cell, hs, Bool.false_eq_true, if_false, Cell.point]
    · simp only [cell, hs, Bool.false_eq_true, if_false, Cell.point]
      exact ⟨hvalue _, hmin, hmax⟩

/-- A cut place is at or below one that has 64 bits if the place itself is, provided that some
place with 64 bits is not below it; and likewise from above. -/
theorem clampInt64_le_iff {low high i j : ℤ} (hi : IsInt64 i) (hj : IsInt64 j) (hlow : low ≤ j)
    (hhigh : j ≤ high) :
    (clampInt64 low ≤ i ↔ low ≤ i) ∧ (i ≤ clampInt64 high ↔ i ≤ high) := by
  unfold IsInt64 at hi hj
  unfold clampInt64
  constructor
  · split
    · omega
    · split <;> omega
  · split
    · omega
    · split <;> omega

/-- What a segment of another net adds to the axes that are taken in a cell. -/
theorem runsAlong_foreign_addSegment {o : Occupancy α} (hpitch : (1e-6 : α) < o.pitch)
    (hne : s.start ≠ s.stop) {m net : NetId} (hnet : m ≠ net) (hreachable : s.Reachable)
    (hc : c.InRange) (d : Direction) :
    d.runsAlong ((o.addSegment m ((s.cell s.start).point o.pitch)
        ((s.cell s.stop).point o.pitch)).foreign c net) = true ↔
      d.runsAlong (o.foreign c net) = true ∨
        ∃ i, min s.start s.stop ≤ i ∧ i ≤ max s.start s.stop ∧ c = s.cell i ∧
          d.runsAlong (if i = s.start ∨ i = s.stop then .both else s.axes) = true := by
  obtain ⟨r, hrun, hhorizontal, hacross, hlow, hhigh⟩ := s.exists_run hpitch hne
  have hpos := Occupancy.pos_of_tolerance_lt hpitch
  have hraxes : r.axes = s.axes := by rw [StraightRun.axes, axes, hhorizontal]
  -- one cell of the segment has 64 bits, so the line is not cut, and the ends are cut harmlessly
  obtain ⟨c', hc', hpasses⟩ := hreachable
  obtain ⟨j, rfl, hjlow, hjhigh⟩ := endsIn_or_inside_iff.1 hpasses
  obtain ⟨hline, hj⟩ := inRange_cell_iff.1 hc'
  have hends : ∀ i : ℤ, (i = min s.start s.stop ∨ i = max s.start s.stop) ↔
      (i = s.start ∨ i = s.stop) := by
    intro i
    omega
  have hcell : ∀ i : ℤ, (if r.horizontal then (i, clampInt64 s.line)
      else (clampInt64 s.line, i)) = s.cell i := by
    intro i
    rw [hhorizontal, clampInt64_of_isInt64 hline, cell]
  have hadd : d.runsAlong ((o.addWires [⟨m, (s.cell s.start).point o.pitch,
      (s.cell s.stop).point o.pitch⟩]).foreign c net) = true ↔ _ :=
    Occupancy.runsAlong_foreign_addWires
  refine hadd.trans (or_congr_right ?_)
  simp only [List.mem_singleton, exists_eq_left, AxisParallel.segmentCells_of_run hpos hrun,
    Occupancy.mem_runCells_iff hpitch hacross hlow hhigh, hcell, hends, hraxes]
  constructor
  · rintro ⟨-, x, ⟨i, hi, hi', rfl⟩, rfl, hd⟩
    obtain ⟨-, hrange⟩ := inRange_cell_iff.1 hc
    obtain ⟨hfirst, hlast⟩ := clampInt64_le_iff hrange hj hjlow hjhigh
    exact ⟨i, hfirst.1 hi, hlast.1 hi', rfl, hd⟩
  · rintro ⟨i, hi, hi', rfl, hd⟩
    obtain ⟨-, hrange⟩ := inRange_cell_iff.1 hc
    obtain ⟨hfirst, hlast⟩ := clampInt64_le_iff hrange hj hjlow hjhigh
    exact ⟨hnet, _, ⟨i, hfirst.2 hi, hlast.2 hi', rfl⟩, rfl, hd⟩

/-- A segment takes both axes at its ends, its own one between them, and nothing elsewhere. -/
theorem marked_addSegment {o : Occupancy α} (hpitch : (1e-6 : α) < o.pitch)
    (hne : s.start ≠ s.stop) {m net : NetId} (hnet : m ≠ net) (hreachable : s.Reachable)
    (hc : c.InRange) :
    s.Marked o (o.addSegment m ((s.cell s.start).point o.pitch)
      ((s.cell s.stop).point o.pitch)) net c where
  ends := by
    intro hends
    apply Axes.eq_of_runsAlong
    intro d
    rw [runsAlong_foreign_addSegment hpitch hne hnet hreachable hc, d.runsAlong_both]
    refine iff_of_true (.inr ?_) rfl
    rcases hends with h | h
    · exact ⟨s.start, by omega, by omega, h, by rw [if_pos (.inl rfl), d.runsAlong_both]⟩
    · exact ⟨s.stop, by omega, by omega, h, by rw [if_pos (.inr rfl), d.runsAlong_both]⟩
  inside := by
    rintro ⟨i, rfl, hlow, hhigh⟩
    apply Axes.eq_of_runsAlong
    intro d
    rw [runsAlong_foreign_addSegment hpitch hne hnet hreachable hc, d.runsAlong_union,
      Bool.or_eq_true]
    apply or_congr_right
    -- the cell is at one place of the segment only, and that is no end
    have hend : ¬ (i = s.start ∨ i = s.stop) := by omega
    constructor
    · rintro ⟨i', -, -, h, hd⟩
      obtain rfl := s.cell_injective h
      rwa [if_neg hend] at hd
    · intro hd
      exact ⟨i, by omega, by omega, rfl, by rwa [if_neg hend]⟩
  elsewhere := by
    intro hnone
    apply Axes.eq_of_runsAlong
    intro d
    rw [runsAlong_foreign_addSegment hpitch hne hnet hreachable hc]
    apply or_iff_left
    rintro ⟨i, hi, hi', h, -⟩
    exact hnone (endsIn_or_inside_iff.2 ⟨i, h, hi, hi'⟩)

end Exact

end GridRun

/-! ### How drawing changes what other nets have taken -/

/-- What other nets have taken in a cell is told by the set of the drawn segments of other nets.
On exact coordinates and a grid that is coarser than the tolerance a segment of another net, from
one grid point to another one, takes both axes at its ends, its own one between them and nothing
elsewhere, whichever end comes first, if at least one of its cells has a column and a row of 64
bits. -/
theorem Occupancy.maskLaws_and_marked :
    (∀ (o : Occupancy α) (c : Cell) (net : NetId), o.MaskLaws c net) ∧
      ∀ [ExactScalar α] (o : Occupancy α) (s : GridRun) (m net : NetId),
        (1e-6 : α) < o.pitch → s.start ≠ s.stop → m ≠ net → s.Reachable →
          ∀ c : Cell, c.InRange →
            let a := (s.cell s.start).point o.pitch
            let b := (s.cell s.stop).point o.pitch
            s.Marked o (o.addSegment m a b) net c ∧ s.Marked o (o.addSegment m b a) net c := by
  constructor
  · exact maskLaws
  · intro _ o s m net hpitch hne hnet hreachable c hc a b
    constructor
    · exact GridRun.marked_addSegment hpitch hne hnet hreachable hc
    · -- from its second end a segment has the same cells
      apply GridRun.Marked.of_turned
      obtain ⟨c', hc', hpasses⟩ := hreachable
      rw [← GridRun.endsIn_turned, ← GridRun.inside_turned] at hpasses
      exact GridRun.marked_addSegment hpitch hne.symm hnet ⟨c', hc', hpasses⟩ hc

/-- A grid without wires. -/
def wireless (pitch : ℚ) : Occupancy ℚ := { pitch }

theorem foreign_wireless (pitch : ℚ) (c : Cell) (net : NetId) :
    (wireless pitch).foreign c net = .none := by
  unfold wireless Occupancy.foreign
  rw [Std.HashMap.getD_empty, List.foldl_nil]

/-- Three cells downward. -/
def downRun : GridRun := ⟨false, 0, 0, 3⟩

/-- A segment downward takes both axes at its ends and the vertical one between them, from either
end, and after another segment has been drawn or before that. -/
theorem downRun_marked :
    let o := wireless (127 / 100)
    let down : Wire ℚ := ⟨1, ⟨0, 0⟩, ⟨0, 381 / 100⟩⟩
    let right : Wire ℚ := ⟨2, ⟨0, 0⟩, ⟨254 / 100, 0⟩⟩
    ((o.addSegment 1 down.a down.b).foreign (0, 0) 0 = .both ∧
      (o.addSegment 1 down.b down.a).foreign (0, 1) 0 = .alongY ∧
      (o.addSegment 1 down.a down.b).foreign (0, 4) 0 = .none) ∧
      (o.addWires [down, right]).foreign (0, 1) 0 =
        (o.addWires [right, down]).foreign (0, 1) 0 := by
  intro o down right
  have hrange : ∀ n : ℤ, 0 ≤ n → n ≤ 4 → Cell.InRange (0, n) := by
    intro n hlow hhigh
    unfold Cell.InRange IsInt64
    omega
  have hdown := fun c hc => Occupancy.maskLaws_and_marked.2 o downRun 1 0 (by decide +kernel)
    (by decide) (by decide) ⟨(0, 0), hrange 0 (by omega) (by omega), .inl (.inl rfl)⟩ c hc
  have ha : (downRun.cell downRun.start).point o.pitch = down.a := by decide +kernel
  have hb : (downRun.cell downRun.stop).point o.pitch = down.b := by decide +kernel
  simp only [ha, hb] at hdown
  refine ⟨⟨?_, ?_, ?_⟩, ?_⟩
  · exact (hdown (0, 0) (hrange 0 (by omega) (by omega))).1.ends (.inl rfl)
  · have hinside : downRun.Inside (0, 1) := ⟨1, rfl, by decide, by decide⟩
    rw [(hdown (0, 1) (hrange 1 (by omega) (by omega))).2.inside hinside, foreign_wireless]
    rfl
  · rw [(hdown (0, 4) (hrange 4 (by omega) (by omega))).1.elsewhere ?_, foreign_wireless]
    rw [GridRun.endsIn_or_inside_iff]
    rintro ⟨i, hi, -, hhigh⟩
    obtain rfl : 4 = i := (Prod.mk.inj hi).2
    exact absurd hhigh (by decide)
  · exact (Occupancy.maskLaws_and_marked.1 o (0, 1) 0).permuted _ _ (List.Perm.swap right down [])

/-- A segment in a row that 64 bits are not enough for. -/
def farRun : GridRun := ⟨true, 10000000000000000000, 0, 3⟩

/-- A segment beyond the range of 64 bits takes cells at the edge of that range, which are none of
its own. -/
theorem farRun_not_marked :
    Cell.InRange (0, 9223372036854775807) ∧
      ¬ (farRun.EndsIn (0, 9223372036854775807) ∨ farRun.Inside (0, 9223372036854775807)) ∧
      ((wireless 1).addSegment 1 ⟨0, 10000000000000000000⟩
        ⟨3, 10000000000000000000⟩).foreign (0, 9223372036854775807) 0 = .both ∧
      ¬ farRun.Marked (wireless 1) ((wireless 1).addSegment 1
        ((farRun.cell farRun.start).point 1) ((farRun.cell farRun.stop).point 1)) 0
          (0, 9223372036854775807) := by
  have hpoints : (farRun.cell farRun.start).point 1 = (⟨0, 10000000000000000000⟩ : Point ℚ) ∧
      (farRun.cell farRun.stop).point 1 = (⟨3, 10000000000000000000⟩ : Point ℚ) := by
    decide +kernel
  have hcells : Occupancy.segmentCells (wireless 1).pitch ⟨0, 10000000000000000000⟩
      ⟨3, 10000000000000000000⟩ = [((0, 9223372036854775807), .both),
        ((1, 9223372036854775807), .alongX), ((2, 9223372036854775807), .alongX),
        ((3, 9223372036854775807), .both)] := by decide +kernel
  have hforeign : ((wireless 1).addSegment 1 ⟨0, 10000000000000000000⟩
      ⟨3, 10000000000000000000⟩).foreign (0, 9223372036854775807) 0 = .both := by
    rw [Occupancy.addSegment, hcells]
    simp only [Occupancy.foreign, List.foldl_cons, List.foldl_nil, Occupancy.take, wireless,
      Std.HashMap.getD_insert, Std.HashMap.getD_empty]
    decide
  have hnone : ¬ (farRun.EndsIn (0, 9223372036854775807) ∨
      farRun.Inside (0, 9223372036854775807)) := by
    rw [GridRun.endsIn_or_inside_iff]
    rintro ⟨i, hi, -, -⟩
    exact absurd (Prod.mk.inj hi).2 (by decide)
  have hrange : Cell.InRange (0, 9223372036854775807) := by
    unfold Cell.InRange IsInt64
    omega
  refine ⟨hrange, hnone, hforeign, ?_⟩
  rw [hpoints.1, hpoints.2]
  intro hmarked
  have hsame := hmarked.elsewhere hnone
  rw [hforeign, foreign_wireless] at hsame
  exact absurd hsame (by decide)

end Schematic
