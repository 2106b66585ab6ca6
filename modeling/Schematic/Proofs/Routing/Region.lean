import Schematic.Proofs.Routing.Crossing

/-!
# The search that a router begins

A router asks for a search on a grid: the region around both ends and all obstacles, with
a margin.  Its columns and rows are counted from the first cell, so that cells and places
are told from each other by a difference of whole numbers, as long as all these numbers
fit into 64 bits.

## Main definitions

* `Router.bounds` — the first and the last cell of both ends and all obstacles.
* `Router.grid`, `Router.walk` — the grid of a search, and what is asked for.
* `Countable`, `Router.Fits` — the numbers of a search fit into 64 bits.

## Main statements

* `Router.path_eq` — a path is what the search answers with.
* `Router.start_mem_bounds`, `Router.span_mem_bounds` — what the region is around.
* `Router.Fits.cell_eq`, `Router.Fits.place_eq` — cells and places.
* `Router.Fits.contains_place` — a region with a margin contains what it is around.
* `Router.Fits.isChain_move` — a walk goes from neighbour to neighbour.
-/

namespace Schematic

/-! ### The least and the largest of some numbers -/

theorem foldl_min_le {β γ : Type} [LinearOrder γ] (f : β → γ) (xs : List β) (m : γ) :
    xs.foldl (fun m x => min m (f x)) m ≤ m ∧
      ∀ x ∈ xs, xs.foldl (fun m x => min m (f x)) m ≤ f x := by
  induction xs generalizing m with
  | nil => exact ⟨le_rfl, nofun⟩
  | cons x xs ih =>
    obtain ⟨hkept, hmem⟩ := ih (min m (f x))
    refine ⟨hkept.trans (min_le_left _ _), fun y hy => ?_⟩
    rcases List.mem_cons.1 hy with rfl | hy
    · exact hkept.trans (min_le_right _ _)
    · exact hmem y hy

theorem le_foldl_max {β γ : Type} [LinearOrder γ] (f : β → γ) (xs : List β) (m : γ) :
    m ≤ xs.foldl (fun m x => max m (f x)) m ∧
      ∀ x ∈ xs, f x ≤ xs.foldl (fun m x => max m (f x)) m :=
  @foldl_min_le β γᵒᵈ _ f xs m

/-! ### Numbers of 64 bits -/

/-- The numbers from `first` to `last`, widened by a margin, can be counted within 64 bits. -/
def Countable (margin first last : Int) : Prop :=
  (IsInt64 (first - margin) ∧ IsInt64 (last + margin)) ∧
    (0 ≤ last - first + 1 + 2 * margin ∧ IsInt64 (last - first + 1 + 2 * margin)) ∧
      IsInt64 margin ∧ IsInt64 (last - first + margin)

instance instDecidableIsInt64 (n : Int) : Decidable (IsInt64 n) :=
  inferInstanceAs (Decidable (_ ∧ _))

instance instDecidableCountable (margin first last : Int) :
    Decidable (Countable margin first last) := inferInstanceAs (Decidable (_ ∧ _))

namespace Countable

variable {margin first last : Int}

theorem extent_eq (h : Countable margin first last) :
    (Router.extent (last - first + 1 + 2 * margin) : Int) = last - first + 1 + 2 * margin := by
  obtain ⟨-, ⟨hlow, -, hhigh⟩, -⟩ := h
  rw [Router.extent, Int.emod_eq_of_lt hlow (by omega), Int.toNat_of_nonneg hlow]

/-- Counting from the first number does not wrap around. -/
theorem wrap_add (h : Countable margin first last) {x : Int} (hx : 0 ≤ x)
    (hlt : x < Router.extent (last - first + 1 + 2 * margin)) :
    wrapInt64 (first - margin + x) = first - margin + x := by
  rw [h.extent_eq] at hlt
  obtain ⟨⟨hfirst, hlast⟩, -⟩ := h
  exact wrapInt64_of_isInt64 (by unfold IsInt64 at *; omega)

/-- The distance from the first number does not wrap around. -/
theorem wrap_sub (h : Countable margin first last) {n : Int} (hn : first ≤ n ∧ n ≤ last) :
    wrapInt64 (n - (first - margin)) = n - (first - margin) := by
  obtain ⟨-, -, hmargin, hreach⟩ := h
  exact wrapInt64_of_isInt64 (by unfold IsInt64 at *; omega)

/-- With a margin the numbers are counted themselves. -/
theorem sub_mem (h : Countable margin first last) (hmargin : 0 ≤ margin) {n : Int}
    (hn : first ≤ n ∧ n ≤ last) :
    0 ≤ n - (first - margin) ∧
      n - (first - margin) < Router.extent (last - first + 1 + 2 * margin) := by
  rw [h.extent_eq]
  omega

end Countable

/-! ### Walks in a region -/

/-- After its first cell a walk is in the region. -/
theorem Grid.IsWalk.start_or_contains {g : Grid} {w : Walk} {states : List GridState}
    (h : g.IsWalk w states) {t : GridState} (ht : t ∈ states) :
    t.cell = w.start ∨ g.contains t.x t.y = true := by
  by_cases hfirst : states.head? = some t
  · have hcell := h.first
    rw [hfirst, Option.map_some, Option.some.injEq] at hcell
    exact .inl hcell
  · obtain ⟨s, hstep⟩ := Router.exists_before h.steps ht hfirst
    exact .inr hstep.inside

/-! ### Regions -/

variable {α : Type} [Scalar α]

namespace Router

/-- The first and the last cell of the smallest region around two cells and all obstacles. -/
def bounds (r : Router α) (start finish : Cell) (obstacles : List (Rect α)) : Cell × Cell :=
  let spans := obstacles.map r.span
  ((spans.foldl (fun m s => min m s.1.1) (min start.1 finish.1),
    spans.foldl (fun m s => min m s.1.2) (min start.2 finish.2)),
   (spans.foldl (fun m s => max m s.2.1) (max start.1 finish.1),
    spans.foldl (fun m s => max m s.2.2) (max start.2 finish.2)))

/-- A cell lies between two others, by column and by row. -/
def Amid (b : Cell × Cell) (c : Cell) : Prop :=
  (b.1.1 ≤ c.1 ∧ c.1 ≤ b.2.1) ∧ b.1.2 ≤ c.2 ∧ c.2 ≤ b.2.2

/-- The grid of the search between two points.  `taken` tells the axes that other nets have
taken in a cell. -/
def grid (r : Router α) (start finish : Point α) (obstacles : List (Rect α))
    (taken : Cell → Axes) : Grid :=
  let g := r.region (r.cellOf start) (r.cellOf finish) obstacles
  { cols := g.cols
    rows := g.rows
    blocked := r.blockedCells g obstacles [start, finish]
    taken := fun x y => taken (g.cell x y) }

/-- What is asked of the search between two points. -/
def walk (r : Router α) (start finish : Point α) (obstacles : List (Rect α)) : Walk :=
  let g := r.region (r.cellOf start) (r.cellOf finish) obstacles
  { start := g.place (r.cellOf start)
    finish := g.place (r.cellOf finish)
    turnPenalty := r.turnPenalty }

/-- No number of the search between two points leaves the 64-bit range. -/
def Fits (r : Router α) (start finish : Point α) (obstacles : List (Rect α)) : Prop :=
  let b := r.bounds (r.cellOf start) (r.cellOf finish) obstacles
  Countable r.margin b.1.1 b.2.1 ∧ Countable r.margin b.1.2 b.2.2

instance instDecidableFits (r : Router α) (start finish : Point α) (obstacles : List (Rect α)) :
    Decidable (r.Fits start finish obstacles) := inferInstanceAs (Decidable (_ ∧ _))

variable {r : Router α} {start finish : Point α} {obstacles : List (Rect α)}
  {taken : Cell → Axes}

/-- A path is what the search answers with, compressed. -/
theorem path_eq (r : Router α) (start finish : Point α) (obstacles : List (Rect α))
    (taken : Cell → Axes) :
    r.path start finish obstacles taken =
      let g := r.region (r.cellOf start) (r.cellOf finish) obstacles
      if r.cellOf start = r.cellOf finish then .ok [(r.cellOf start).point r.pitch]
      else if r.maxCells < g.size then .error (.gridTooLarge g.size r.maxCells)
      else
        match (r.grid start finish obstacles taken).search? (r.walk start finish obstacles) with
        | some cells => .ok (compressPath (cells.map fun c => (g.cell c.1 c.2).point r.pitch))
        | none => .error (.noPath start finish) := by
  simp only [path, cellPath]
  split
  · rfl
  split
  · rfl
  change Except.map _ (match (r.grid start finish obstacles taken).search?
    (r.walk start finish obstacles) with | some _ => _ | none => _) = _
  cases (r.grid start finish obstacles taken).search? (r.walk start finish obstacles) with
  | some cells => exact congrArg (fun points => Except.ok (compressPath points)) List.map_map
  | none => rfl

/-- A path goes through the cells of a walk, unless both ends are in one cell. -/
theorem exists_walk_of_path {points : List (Point α)}
    (h : r.path start finish obstacles taken = .ok points) :
    (r.cellOf start = r.cellOf finish ∧ points = [(r.cellOf start).point r.pitch]) ∨
      ∃ states,
        (r.grid start finish obstacles taken).IsWalk (r.walk start finish obstacles) states ∧
          points = compressPath ((states.map fun s =>
            (r.region (r.cellOf start) (r.cellOf finish) obstacles).cell s.x s.y).map
              (Cell.point r.pitch)) := by
  rw [path_eq] at h
  simp only at h
  split at h
  · next heq => exact .inl ⟨heq, (Except.ok.inj h).symm⟩
  split at h
  · cases h
  split at h
  · next cells hfound =>
    obtain ⟨states, rfl, hwalk⟩ := Grid.search?_isWalk hfound
    refine .inr ⟨states, hwalk, ?_⟩
    rw [← Except.ok.inj h, List.map_map, List.map_map]
    rfl
  · cases h

/-- Both ends are within the bounds. -/
theorem start_mem_bounds (r : Router α) (start finish : Cell) (obstacles : List (Rect α)) :
    Amid (r.bounds start finish obstacles) start ∧
      Amid (r.bounds start finish obstacles) finish := by
  have hx := (foldl_min_le (fun s : Cell × Cell => s.1.1) (obstacles.map r.span)
    (min start.1 finish.1)).1
  have hy := (foldl_min_le (fun s : Cell × Cell => s.1.2) (obstacles.map r.span)
    (min start.2 finish.2)).1
  have hx' := (le_foldl_max (fun s : Cell × Cell => s.2.1) (obstacles.map r.span)
    (max start.1 finish.1)).1
  have hy' := (le_foldl_max (fun s : Cell × Cell => s.2.2) (obstacles.map r.span)
    (max start.2 finish.2)).1
  simp only [Amid, bounds]
  omega

/-- The cells that an obstacle touches are within the bounds. -/
theorem span_mem_bounds (r : Router α) (start finish : Cell) {obstacles : List (Rect α)}
    {box : Rect α} (hbox : box ∈ obstacles) {c : Cell}
    (hc : Amid (r.span box) c) :
    Amid (r.bounds start finish obstacles) (r.span box).1 ∧
      Amid (r.bounds start finish obstacles) (r.span box).2 := by
  have hmem : r.span box ∈ obstacles.map r.span := List.mem_map_of_mem hbox
  have hx := (foldl_min_le (fun s : Cell × Cell => s.1.1) (obstacles.map r.span)
    (min start.1 finish.1)).2 _ hmem
  have hy := (foldl_min_le (fun s : Cell × Cell => s.1.2) (obstacles.map r.span)
    (min start.2 finish.2)).2 _ hmem
  have hx' := (le_foldl_max (fun s : Cell × Cell => s.2.1) (obstacles.map r.span)
    (max start.1 finish.1)).2 _ hmem
  have hy' := (le_foldl_max (fun s : Cell × Cell => s.2.2) (obstacles.map r.span)
    (max start.2 finish.2)).2 _ hmem
  simp only [Amid, bounds] at hc ⊢
  omega

namespace Fits

/-- The cell in a column and row of the region. -/
theorem cell_eq (h : r.Fits start finish obstacles) {x y : Int}
    (hinside : (r.grid start finish obstacles taken).contains x y = true) :
    (r.region (r.cellOf start) (r.cellOf finish) obstacles).cell x y =
      ((r.region (r.cellOf start) (r.cellOf finish) obstacles).base.1 + x,
        (r.region (r.cellOf start) (r.cellOf finish) obstacles).base.2 + y) := by
  obtain ⟨⟨hx, hcols⟩, hy, hrows⟩ := Grid.contains_iff.1 hinside
  exact Prod.ext (h.1.wrap_add hx hcols) (h.2.wrap_add hy hrows)

/-- The column and row of a cell that the region is around. -/
theorem place_eq (h : r.Fits start finish obstacles) {c : Cell}
    (hc : Amid (r.bounds (r.cellOf start) (r.cellOf finish) obstacles) c) :
    (r.region (r.cellOf start) (r.cellOf finish) obstacles).place c =
      (c.1 - (r.region (r.cellOf start) (r.cellOf finish) obstacles).base.1,
        c.2 - (r.region (r.cellOf start) (r.cellOf finish) obstacles).base.2) :=
  Prod.ext (h.1.wrap_sub hc.1) (h.2.wrap_sub hc.2)

/-- A region with a margin contains the cells that it is around. -/
theorem contains_place (h : r.Fits start finish obstacles) (hmargin : 0 ≤ r.margin) {c : Cell}
    (hc : Amid (r.bounds (r.cellOf start) (r.cellOf finish) obstacles) c) :
    (r.grid start finish obstacles taken).contains
      ((r.region (r.cellOf start) (r.cellOf finish) obstacles).place c).1
      ((r.region (r.cellOf start) (r.cellOf finish) obstacles).place c).2 = true := by
  rw [h.place_eq hc, Grid.contains_iff]
  exact ⟨h.1.sub_mem hmargin hc.1, h.2.sub_mem hmargin hc.2⟩

/-- The cells of a walk are told by its columns and rows. -/
theorem cell_eq_of_mem (h : r.Fits start finish obstacles) {states : List GridState}
    (hwalk : (r.grid start finish obstacles taken).IsWalk (r.walk start finish obstacles) states)
    {s : GridState} (hs : s ∈ states) :
    (r.region (r.cellOf start) (r.cellOf finish) obstacles).cell s.x s.y =
      ((r.region (r.cellOf start) (r.cellOf finish) obstacles).base.1 + s.x,
        (r.region (r.cellOf start) (r.cellOf finish) obstacles).base.2 + s.y) := by
  rcases hwalk.start_or_contains hs with hstart | hinside
  · have hplace : s.cell = _ :=
      hstart.trans (h.place_eq (start_mem_bounds r (r.cellOf start) (r.cellOf finish) obstacles).1)
    obtain ⟨hx, hy⟩ := Prod.mk.inj hplace
    rw [Region.cell_of_place _ (cellOf_inRange r start) hstart, hx, hy, add_sub_cancel,
      add_sub_cancel]
  · exact h.cell_eq hinside

/-- A walk goes to one of the four neighbours each time. -/
theorem isChain_move (h : r.Fits start finish obstacles) {states : List GridState}
    (hwalk : (r.grid start finish obstacles taken).IsWalk (r.walk start finish obstacles) states) :
    (states.map fun s =>
      (r.region (r.cellOf start) (r.cellOf finish) obstacles).cell s.x s.y).IsChain
        fun c d => ∃ dir : Direction, d = dir.move c := by
  have hsteps := hwalk.steps
  rw [List.isChain_map]
  rw [List.isChain_iff_getElem] at hsteps ⊢
  intro i hi
  have hstep := hsteps i hi
  refine ⟨states[i + 1].heading, ?_⟩
  rw [h.cell_eq_of_mem hwalk (List.getElem_mem _), h.cell_eq_of_mem hwalk (List.getElem_mem _)]
  have hmove := hstep.move
  generalize states[i + 1] = t at hmove ⊢
  generalize states[i] = s at hmove ⊢
  obtain ⟨x, y, d⟩ := t
  cases d <;> simp only [GridState.cell, Direction.move, Prod.mk.injEq] at hmove ⊢ <;> omega

end Fits

end Router

end Schematic
