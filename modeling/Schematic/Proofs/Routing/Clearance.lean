import Schematic.Proofs.Routing.Region

/-!
# Paths keep clear of obstacles

A cell strictly inside an obstacle is blocked before the search begins, unless one of the
ends that were asked for lies there.  A walk enters no blocked cell, and leaving out the
points on straight runs adds no cell to it.  So no cell on a path is inside an obstacle,
the first one and those of the ends apart.

Columns and rows are 64-bit numbers: a point farther away is brought to the edge of their
range, and a region that reaches beyond it wraps around.

## Main definitions

* `Keeps`, `Marks` — what a step does to a blocked cell, and which cell it blocks.
* `Router.HasCell` — the grid point nearest to a point can be numbered.
* `Router.KeepsClear` — what holds of a path on the grid.

## Main statements

* `Router.amid_span` — a cell inside an obstacle is among those that the obstacle touches.
* `Router.isBlocked_of_blocks` — cells inside obstacles are blocked.
* `Router.path_keepsClear`, `Router.keeps_clear` — paths keep clear of obstacles.
-/

namespace Schematic

/-! ### Marking cells -/

/-- A step keeps the number of cells, and a blocked cell stays blocked. -/
structure Keeps (f : Array Bool → Array Bool) (i : Nat) : Prop where
  /-- No cell is added or removed. -/
  size_eq : ∀ a, (f a).size = a.size
  /-- A blocked cell stays so. -/
  stays : ∀ a, a[i]? = some true → (f a)[i]? = some true

/-- A step blocks a cell. -/
def Marks (f : Array Bool → Array Bool) (i : Nat) : Prop :=
  ∀ a, i < a.size → (f a)[i]? = some true

section Marks

variable {β : Type} {f : Array Bool → β → Array Bool} {i : Nat}

theorem Keeps.foldl (h : ∀ b, Keeps (f · b) i) (l : List β) : Keeps (l.foldl f) i := by
  induction l with
  | nil => exact ⟨fun _ => rfl, fun _ => id⟩
  | cons b l ih =>
    exact ⟨fun a => (ih.size_eq _).trans ((h b).size_eq a),
      fun a ha => ih.stays _ ((h b).stays a ha)⟩

/-- One of some steps blocks a cell, and the others keep it blocked. -/
theorem Marks.foldl (h : ∀ b, Keeps (f · b) i) {l : List β} {b : β} (hb : b ∈ l)
    (hmark : Marks (f · b) i) : Marks (l.foldl f) i := by
  intro a hi
  induction l generalizing a with
  | nil => cases hb
  | cons c l ih =>
    rcases List.mem_cons.1 hb with rfl | hb
    · exact (Keeps.foldl h l).stays _ (hmark a hi)
    · exact ih hb (f a c) (by rwa [(h c).size_eq])

theorem keeps_set (p : Bool) (i j : Nat) :
    Keeps (fun a => if p then a.setIfInBounds j true else a) i where
  size_eq a := by
    split
    · exact Array.size_setIfInBounds
    · rfl
  stays a ha := by
    split
    · rw [Array.getElem?_setIfInBounds]
      split
      · next hij =>
        subst hij
        rw [if_pos (Array.getElem?_eq_some_iff.1 ha).1]
      · exact ha
    · exact ha

theorem marks_set {p : Bool} (hp : p = true) (i : Nat) :
    Marks (fun a => if p then a.setIfInBounds i true else a) i := by
  intro a hi
  simp only [if_pos hp, Array.getElem?_setIfInBounds, if_true, if_pos hi]

end Marks

namespace Router

section Blocking

variable {α : Type} [Scalar α] (r : Router α) (g : Region) (exempt : List (Point α))

theorem keeps_blockBox (box : Rect α) (i : Nat) : Keeps (r.blockBox g exempt · box) i :=
  Keeps.foldl (fun _ => Keeps.foldl (fun _ => keeps_set _ _ _) _) _

/-- An obstacle blocks a cell of its rows and columns that lies inside it. -/
theorem marks_blockBox {box : Rect α} {x y : Nat}
    (hx : (g.place (r.span box).1).1.toNat ≤ x ∧
      x ≤ min (g.place (r.span box).2).1.toNat (g.cols - 1))
    (hy : (g.place (r.span box).1).2.toNat ≤ y ∧
      y ≤ min (g.place (r.span box).2).2.toNat (g.rows - 1))
    (hblocks : blocks box exempt (r.pointOf (g.cell x y)) = true) :
    Marks (r.blockBox g exempt · box) (y * g.cols + x) := by
  have hmem : ∀ {low high n : Nat}, low ≤ n ∧ n ≤ high → n ∈ List.range' low (high + 1 - low) :=
    fun h => List.mem_range'_1.2 (by omega)
  refine Marks.foldl (fun _ => Keeps.foldl (fun _ => keeps_set _ _ _) _) (hmem hy) ?_
  exact Marks.foldl (fun _ => keeps_set _ _ _) (hmem hx) (marks_set hblocks _)

/-- Every obstacle blocks its cells. -/
theorem blockedCells_eq_true {obstacles : List (Rect α)} {box : Rect α} (hbox : box ∈ obstacles)
    {i : Nat} (hi : i < g.cols * g.rows) (hmark : Marks (r.blockBox g exempt · box) i) :
    (r.blockedCells g obstacles exempt)[i]? = some true :=
  Marks.foldl (fun b => keeps_blockBox r g exempt b i) hbox hmark _ (by rwa [Array.size_replicate])

end Blocking

open scoped Scalar
open ExactScalar

variable {α : Type} [Scalar α] [ExactScalar α] {r : Router α} {start finish : Point α}
  {obstacles : List (Rect α)} {taken : Cell → Axes}

/-! ### Cells inside an obstacle -/

theorem toIndex_floor_le {a pitch : α} (hpitch : 0 < value pitch) {n : Int} (hn : IsInt64 n)
    (h : value a ≤ n * value pitch) : Scalar.toIndex (Scalar.floor (a / pitch)) ≤ n := by
  rw [Scalar.toIndex, truncate_eq, value_floor, wholePart_intCast, ← clampInt64_of_isInt64 hn]
  refine clampInt64_mono (Int.cast_le (R := ℝ).1 ((Int.floor_le _).trans ?_))
  rw [value_div _ _ hpitch.ne']
  exact (div_le_iff₀ hpitch).2 h

theorem le_toIndex_ceil {a pitch : α} (hpitch : 0 < value pitch) {n : Int} (hn : IsInt64 n)
    (h : n * value pitch ≤ value a) : n ≤ Scalar.toIndex (Scalar.ceil (a / pitch)) := by
  rw [Scalar.toIndex, truncate_eq, value_ceil, wholePart_intCast, ← clampInt64_of_isInt64 hn]
  refine clampInt64_mono (Int.cast_le (R := ℝ).1 (le_trans ?_ (Int.le_ceil _)))
  rw [value_div _ _ hpitch.ne']
  exact (le_div_iff₀ hpitch).2 h

/-- A cell inside an obstacle is among those that the obstacle touches. -/
theorem amid_span (hpitch : 0 < value r.pitch) {box : Rect α} {c : Cell} (hc : c.InRange)
    (h : box.strictlyContains (c.point r.pitch) = true) : Amid (r.span box) c := by
  simp only [Rect.strictlyContains, Bool.and_eq_true, decide_eq_true_eq, lt_iff, Cell.point,
    value_mul, value_ofInt] at h
  obtain ⟨⟨⟨hleft, hright⟩, htop⟩, hbottom⟩ := h
  exact ⟨⟨toIndex_floor_le hpitch hc.1 hleft.le, le_toIndex_ceil hpitch hc.1 hright.le⟩,
    toIndex_floor_le hpitch hc.2 htop.le, le_toIndex_ceil hpitch hc.2 hbottom.le⟩

/-- A cell of the region inside an obstacle is blocked, unless one of the ends lies there. -/
theorem isBlocked_of_blocks (hpitch : 0 < value r.pitch) (hfits : r.Fits start finish obstacles)
    {x y : Int} (hinside : (r.grid start finish obstacles taken).contains x y = true)
    {box : Rect α} (hbox : box ∈ obstacles)
    (hblocks : blocks box [start, finish] (((r.region (r.cellOf start) (r.cellOf finish)
      obstacles).cell x y).point r.pitch) = true) :
    (r.grid start finish obstacles taken).isBlocked x y = true := by
  have hstrict := (Bool.and_eq_true_iff.1 hblocks).1
  have hspan := amid_span hpitch (Region.cell_inRange _ x y) hstrict
  obtain ⟨hfirst, hlast⟩ := span_mem_bounds r (r.cellOf start) (r.cellOf finish) hbox hspan
  have hindex := Grid.cellIndex_lt hinside
  rw [Amid, hfits.cell_eq hinside] at hspan
  obtain ⟨⟨hx, hxc⟩, hy, hyr⟩ := Grid.contains_iff.1 hinside
  -- columns and rows are natural numbers from here on
  lift x to Nat using hx
  lift y to Nat using hy
  have hnumber : (r.grid start finish obstacles taken).cellIndex x y =
      y * (r.region (r.cellOf start) (r.cellOf finish) obstacles).cols + x := by
    rw [Grid.cellIndex, ← Int.natCast_mul, ← Int.natCast_add, Int.toNat_natCast]
    rfl
  have hcols : x < (r.region (r.cellOf start) (r.cellOf finish) obstacles).cols :=
    Int.ofNat_lt.1 hxc
  have hrows : y < (r.region (r.cellOf start) (r.cellOf finish) obstacles).rows :=
    Int.ofNat_lt.1 hyr
  rw [hnumber] at hindex
  rw [Grid.isBlocked, hnumber]
  refine congrArg (Option.getD · false) (blockedCells_eq_true r _ _ hbox hindex ?_)
  refine marks_blockBox r _ _ ?_ ?_ hblocks
  · rw [hfits.place_eq hfirst, hfits.place_eq hlast]
    omega
  · rw [hfits.place_eq hfirst, hfits.place_eq hlast]
    omega

/-! ### Points on the grid -/

/-- The column and the row of the grid point nearest to a point fit into 64 bits. -/
def HasCell {α : Type} [Scalar α] (r : Router α) (p : Point α) : Prop :=
  IsInt64 (Scalar.truncate (Scalar.round (p.x / r.pitch))) ∧
    IsInt64 (Scalar.truncate (Scalar.round (p.y / r.pitch)))

instance instDecidableHasCell {α : Type} [Scalar α] (r : Router α) (p : Point α) :
    Decidable (r.HasCell p) := inferInstanceAs (Decidable (_ ∧ _))

/-- The nearest grid point is that of the cell. -/
theorem point_cellOf (hpitch : 0 < value r.pitch) {p : Point α} (h : r.HasCell p) :
    (r.cellOf p).point r.pitch = p.snap r.pitch := by
  have hround : ∀ a : α, IsInt64 (Scalar.truncate (Scalar.round (a / r.pitch))) →
      Scalar.ofInt (Scalar.toIndex (Scalar.round (a / r.pitch))) * r.pitch =
        Schematic.snap a r.pitch := by
    intro a ha
    have hnot : ¬r.pitch ≤ (0 : α) := by
      rw [le_iff, value_zero]
      exact not_le.2 hpitch
    have hwhole : (Scalar.ofInt (Scalar.truncate (Scalar.round (a / r.pitch))) : α) =
        Scalar.round (a / r.pitch) := by
      refine value_injective ?_
      rw [value_ofInt, truncate_eq, value_round, wholePart_intCast]
    rw [Scalar.toIndex, clampInt64_of_isInt64 ha, hwhole, Schematic.snap, if_neg hnot]
  exact congrArg₂ Point.mk (hround p.x h.1) (hround p.y h.2)

/-! ### Paths -/

/-- What holds of a path on the grid. -/
structure KeepsClear (r : Router α) (start finish : Point α) (obstacles : List (Rect α))
    (points : List (Point α)) : Prop where
  /-- It starts at the grid point nearest to the one end. -/
  head : r.HasCell start → points.head? = some (start.snap r.pitch)
  /-- It ends at the grid point nearest to the other end. -/
  last : r.HasCell finish → points.getLast? = some (finish.snap r.pitch)
  /-- Its segments are horizontal or vertical. -/
  parallel : ∀ s ∈ segments points, s.1.x = s.2.x ∨ s.1.y = s.2.y
  /-- No cell on its segments but the first one is strictly inside an obstacle, unless one of the
  ends lies there. -/
  clear : r.Fits start finish obstacles → ∀ s ∈ segments points, ∀ c : Cell,
    (c.point r.pitch).OnRun s.1 s.2 → c ≠ r.cellOf start →
      ∀ box ∈ obstacles, box.strictlyContains (c.point r.pitch) = true →
        start.near (c.point r.pitch) 1e-6 = true ∨ finish.near (c.point r.pitch) 1e-6 = true

/-- No cell of a walk but the first one is inside an obstacle. -/
theorem near_of_mem (hpitch : 0 < value r.pitch) (hfits : r.Fits start finish obstacles)
    {states : List GridState}
    (hwalk : (r.grid start finish obstacles taken).IsWalk (r.walk start finish obstacles) states)
    {c : Cell} (hc : c ∈ states.map fun s =>
      (r.region (r.cellOf start) (r.cellOf finish) obstacles).cell s.x s.y)
    (hstart : c ≠ r.cellOf start) {box : Rect α} (hbox : box ∈ obstacles)
    (hstrict : box.strictlyContains (c.point r.pitch) = true) :
    start.near (c.point r.pitch) 1e-6 = true ∨ finish.near (c.point r.pitch) 1e-6 = true := by
  obtain ⟨t, ht, rfl⟩ := List.mem_map.1 hc
  have hhead : states.head? ≠ some t := fun hhead => by
    have hfirst := hwalk.first
    rw [hhead, Option.map_some] at hfirst
    exact hstart (Region.cell_of_place _ (cellOf_inRange r start) (Option.some.inj hfirst))
  obtain ⟨s, hstep⟩ := exists_before hwalk.steps ht hhead
  have hfree := (Grid.mayEnter_iff (c := t.cell).1 hstep.enter).1
  -- the walk enters the cell, so that it is not blocked
  by_contra hfar
  rw [not_or, Bool.not_eq_true, Bool.not_eq_true] at hfar
  have hblocked := isBlocked_of_blocks hpitch hfits hstep.inside hbox
    (by simp [blocks, hstrict, hfar.1, hfar.2])
  exact Bool.false_ne_true (hfree.symm.trans hblocked)

/-- A path that is found starts and ends at the nearest grid points, and keeps clear of obstacles,
whatever is taken. -/
theorem path_keepsClear (hpitch : (1e-9 : α) < r.pitch) {points : List (Point α)}
    (h : r.path start finish obstacles taken = .ok points) :
    r.KeepsClear start finish obstacles points := by
  have hpos := pitch_pos hpitch
  rcases exists_walk_of_path h with ⟨heq, rfl⟩ | ⟨states, hwalk, rfl⟩
  · exact {
      head := fun hstart => congrArg some (point_cellOf hpos hstart)
      last := fun hfinish => by
        rw [heq]
        exact congrArg some (point_cellOf hpos hfinish)
      parallel := nofun
      clear := fun _ => nofun }
  have hcells : CellWalk (r.cellOf start) (r.cellOf finish) taken _ :=
    cellWalk_of_isWalk rfl (cellOf_inRange r start) (cellOf_inRange r finish) rfl rfl hwalk
  constructor
  case head =>
    intro hstart
    rw [head?_compressPath, List.head?_map, hcells.head, Option.map_some, point_cellOf hpos hstart]
  case last =>
    intro hfinish
    rw [getLast?_compressPath hpitch, List.getLast?_map, hcells.last, Option.map_some,
      point_cellOf hpos hfinish]
  case parallel =>
    intro s hs
    exact (axisParallel_of_mem_segments hpitch hcells.lines s hs).aligned.symm
  case clear =>
    intro hfits s hs c hon hstart box hbox hstrict
    have hmem := mem_of_onRun_segment hpitch (hfits.isChain_move hwalk) s hs c hon
    exact near_of_mem hpos hfits hwalk hmem hstart hbox hstrict

/-- A path around obstacles, among wires or not, starts and ends at the nearest grid points and
keeps clear of the obstacles. -/
theorem keeps_clear (r : Router α) (hpitch : (1e-9 : α) < r.pitch) (start finish : Point α)
    (obstacles : List (Rect α)) (occupancy : Occupancy α) (net : NetId) (points : List (Point α))
    (h : r.route start finish obstacles = .ok points ∨
      r.routeNet start finish obstacles occupancy net = .ok points) :
    r.KeepsClear start finish obstacles points := by
  rcases h with h | h
  · exact path_keepsClear hpitch h
  · exact path_keepsClear hpitch h

/-- A square millimetre in the way. -/
def sampleBox : Rect ℚ := ⟨1 / 2, -1 / 2, 1, 1⟩

/-- The path leads around the square. -/
theorem sampleBox_kept_clear :
    sampleRouter.route ⟨0, 0⟩ ⟨2, 0⟩ [sampleBox] =
        .ok [⟨0, 0⟩, ⟨0, -1⟩, ⟨2, -1⟩, ⟨2, 0⟩] ∧
      (sampleRouter.HasCell ⟨0, 0⟩ ∧ sampleRouter.HasCell ⟨2, 0⟩) ∧
      sampleRouter.Fits ⟨0, 0⟩ ⟨2, 0⟩ [sampleBox] ∧
      sampleRouter.KeepsClear ⟨0, 0⟩ ⟨2, 0⟩ [sampleBox] [⟨0, 0⟩, ⟨0, -1⟩, ⟨2, -1⟩, ⟨2, 0⟩] := by
  have hroute : sampleRouter.route ⟨0, 0⟩ ⟨2, 0⟩ [sampleBox] =
      .ok [⟨0, 0⟩, ⟨0, -1⟩, ⟨2, -1⟩, ⟨2, 0⟩] := eq_ok_of_toOption (by decide +kernel)
  have hclear := keeps_clear sampleRouter (by decide +kernel) ⟨0, 0⟩ ⟨2, 0⟩ [sampleBox] sampleGrid 0
    _ (.inl hroute)
  exact ⟨hroute, by decide +kernel, by decide +kernel, hclear⟩

/-- A router with a free cell around the region. -/
def wideRouter : Router ℚ := { sampleRouter with margin := 1 }

/-- A square at the origin. -/
def originBox : Rect ℚ := ⟨-1, -1, 2, 2⟩

/-- Too far out, the ends are brought to the last cell; and from the last cell to the first one it
is a single step, which passes through everything in between. -/
theorem edge_routes :
    (sampleRouter.route ⟨10000000000000000000, 0⟩ ⟨10000000000000000000, 3⟩ [] =
        .ok [⟨9223372036854775807, 0⟩, ⟨9223372036854775807, 3⟩] ∧
      (⟨10000000000000000000, 0⟩ : Point ℚ).snap sampleRouter.pitch ≠
        ⟨9223372036854775807, 0⟩) ∧
    (wideRouter.route ⟨9223372036854775807, 0⟩ ⟨-9223372036854775808, 0⟩ [originBox] =
        .ok [⟨9223372036854775807, 0⟩, ⟨-9223372036854775808, 0⟩] ∧
      (Cell.point wideRouter.pitch (0, 0)).OnRun ⟨9223372036854775807, 0⟩
        ⟨-9223372036854775808, 0⟩ ∧
      originBox.strictlyContains (Cell.point wideRouter.pitch (0, 0)) = true) := by
  refine ⟨⟨eq_ok_of_toOption (by decide +kernel), fun h => ?_⟩,
    eq_ok_of_toOption (by decide +kernel), ?_, by decide +kernel⟩
  · exact absurd (congrArg Point.x h) (by decide +kernel)
  · unfold Point.OnRun Between
    decide +kernel

end Router

end Schematic
