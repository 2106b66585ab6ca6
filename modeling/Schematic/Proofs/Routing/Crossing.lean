import Schematic.Drawing.Assembly
import Schematic.Proofs.Routing.Compression

/-!
# Wires of different nets only cross

Wires are drawn one after another, some as they are given and some along a path
that the router finds among those drawn before.  What is drawn tells the next
search where it may go: across an earlier wire between its ends, and nowhere
else.  So whatever the order of the steps is, a found path meets the wires of
other nets at right angles, and goes straight on there.

Columns and rows are 64-bit numbers, and steps at the edge of their range wrap
around.

## Main definitions

* `Router.CellWalk` — the cells of a path, and how it meets taken cells.
* `RoutingStep`, `Drawn`, `Router.draw` — wires drawn one after another.
* `Drawn.Recorded` — the cells of all wires are taken.

## Main statements

* `Router.routeNet_cellWalk` — what the router answers with.
* `Router.recorded_draw` — the cells of all wires are taken after every step.
* `Router.paths_only_cross` — a found path only crosses the wires of other nets.
-/

namespace Schematic

/-! ### Cells of a region -/

/-- The cell with its column and row wrapped around into 64 bits. -/
def Cell.wrap (c : Cell) : Cell := (wrapInt64 c.1, wrapInt64 c.2)

/-- The cell next to a cell, among those of 64 bits. -/
def Direction.next (d : Direction) (c : Cell) : Cell := Cell.wrap (d.move c)

theorem wrapInt64_of_isInt64 {n : Int} (h : IsInt64 n) : wrapInt64 n = n := by
  rw [wrapInt64, if_pos (clampInt64_of_isInt64 h)]

theorem wrapInt64_eq_bmod (n : Int) : wrapInt64 n = n.bmod 18446744073709551616 := by
  unfold wrapInt64
  split
  · next h =>
    have hrange : IsInt64 n := h ▸ isInt64_clampInt64 n
    unfold IsInt64 at hrange
    rw [Int.bmod_eq_of_le (by omega) (by omega)]
  · rfl

theorem wrapInt64_emod (n : Int) :
    wrapInt64 n % 18446744073709551616 = n % 18446744073709551616 := by
  rw [wrapInt64_eq_bmod]
  exact Int.bmod_emod

theorem isInt64_wrapInt64 (n : Int) : IsInt64 (wrapInt64 n) := by
  rw [wrapInt64_eq_bmod]
  have hlow := Int.le_bmod (x := n) (m := 18446744073709551616) (by omega)
  have hhigh := Int.bmod_lt (x := n) (m := 18446744073709551616) (by omega)
  unfold IsInt64
  omega

/-- A step leads to another cell, of the same column or the same row. -/
theorem Direction.next_line (d : Direction) {c : Cell} (hc : c.InRange) :
    c ≠ d.next c ∧ (c.1 = (d.next c).1 ∨ c.2 = (d.next c).2) := by
  obtain ⟨hx, hy⟩ := hc
  have hself : ∀ {n : Int}, IsInt64 n → n = wrapInt64 n := fun h => (wrapInt64_of_isInt64 h).symm
  have hother : ∀ n k : Int, k = 1 ∨ k = -1 → n ≠ wrapInt64 (n + k) := by
    intro n k hk heq
    have := wrapInt64_emod (n + k)
    omega
  cases d with
  | up => exact ⟨fun h => hother c.2 (-1) (by omega) (congrArg Prod.snd h), .inl (hself hx)⟩
  | down => exact ⟨fun h => hother c.2 1 (by omega) (congrArg Prod.snd h), .inl (hself hx)⟩
  | left => exact ⟨fun h => hother c.1 (-1) (by omega) (congrArg Prod.fst h), .inr (hself hy)⟩
  | right => exact ⟨fun h => hother c.1 1 (by omega) (congrArg Prod.fst h), .inr (hself hy)⟩

namespace Router.Region

variable (g : Router.Region)

theorem cell_inRange (x y : Int) : (g.cell x y).InRange :=
  ⟨isInt64_wrapInt64 _, isInt64_wrapInt64 _⟩

theorem cell_place {c : Cell} (hc : c.InRange) : g.cell (g.place c).1 (g.place c).2 = c := by
  have hback : ∀ {n base : Int}, IsInt64 n → wrapInt64 (base + wrapInt64 (n - base)) = n := by
    intro n base hn
    rw [wrapInt64_eq_bmod, wrapInt64_eq_bmod, Int.add_bmod_bmod, add_sub_cancel,
      ← wrapInt64_eq_bmod, wrapInt64_of_isInt64 hn]
  exact Prod.ext (hback hc.1) (hback hc.2)

/-- A step in the region is a step of cells. -/
theorem cell_move (d : Direction) (p : Int × Int) :
    g.cell (d.move p).1 (d.move p).2 = d.next (g.cell p.1 p.2) := by
  have hadd : ∀ n k : Int, wrapInt64 (wrapInt64 n + k) = wrapInt64 (n + k) := by
    intro n k
    simp only [wrapInt64_eq_bmod, Int.bmod_add_bmod]
  have hsub : ∀ n k : Int, wrapInt64 (wrapInt64 n - k) = wrapInt64 (n - k) := by
    intro n k
    simp only [wrapInt64_eq_bmod, Int.bmod_sub_bmod]
  have hself : ∀ n : Int, wrapInt64 (wrapInt64 n) = wrapInt64 n := fun n =>
    wrapInt64_of_isInt64 (isInt64_wrapInt64 n)
  cases d <;> simp only [Direction.move, Direction.next, cell, Cell.wrap, hadd, hsub, hself,
    Prod.mk.injEq, true_and, and_true] <;> congr 1 <;> ring

/-- A state that lies at the place of a cell is in that cell. -/
theorem cell_of_place {c : Cell} (hc : c.InRange) {s : GridState} (hs : s.cell = g.place c) :
    g.cell s.x s.y = c := by
  change g.cell s.cell.1 s.cell.2 = c
  rw [hs, g.cell_place hc]

/-- A step of a walk is a step of cells. -/
theorem cell_step {grid : Grid} {w : Walk} {s t : GridState} (h : grid.Step w s t) :
    g.cell t.x t.y = t.heading.next (g.cell s.x s.y) := by
  change g.cell t.cell.1 t.cell.2 = _
  rw [h.move, g.cell_move]
  rfl

/-- The region does not reach the edge of the 64-bit range. -/
def Inside : Prop :=
  (-9223372036854775808 < g.base.1 ∧ g.base.1 + g.cols ≤ 9223372036854775807) ∧
    -9223372036854775808 < g.base.2 ∧ g.base.2 + g.rows ≤ 9223372036854775807

instance instDecidableInside : Decidable g.Inside := inferInstanceAs (Decidable (_ ∧ _))

variable {g}

/-- A step into an inside region does not wrap around. -/
theorem Inside.cell_move (h : g.Inside) {d : Direction} {p : Int × Int}
    (hx : 0 ≤ (d.move p).1 ∧ (d.move p).1 < g.cols)
    (hy : 0 ≤ (d.move p).2 ∧ (d.move p).2 < g.rows) :
    g.cell (d.move p).1 (d.move p).2 = d.move (g.cell p.1 p.2) := by
  obtain ⟨hbx, hby⟩ := h
  have hexact : ∀ {x y : Int}, IsInt64 (g.base.1 + x) → IsInt64 (g.base.2 + y) →
      g.cell x y = (g.base.1 + x, g.base.2 + y) := fun hx hy =>
    Prod.ext (wrapInt64_of_isInt64 hx) (wrapInt64_of_isInt64 hy)
  have hhere : g.cell p.1 p.2 = (g.base.1 + p.1, g.base.2 + p.2) := by
    refine hexact ?_ ?_ <;> unfold IsInt64 <;> cases d <;> simp only [Direction.move] at hx hy <;>
      omega
  rw [hhere, hexact (by unfold IsInt64; omega) (by unfold IsInt64; omega)]
  refine Prod.ext ?_ ?_ <;> cases d <;> simp only [Direction.move] <;> omega

end Router.Region

/-! ### The cells of a path -/

variable {α : Type} [Scalar α]

namespace Router

/-- Cells of a walk from one cell to another.  Between these two, a cell that is
taken is entered along a free axis, and the walk goes straight on there. -/
structure CellWalk (source target : Cell) (taken : Cell → Axes) (cells : List Cell) : Prop where
  /-- It starts at the one cell. -/
  head : cells.head? = some source
  /-- It ends at the other cell. -/
  last : cells.getLast? = some target
  /-- The numbers of all cells fit into 64 bits. -/
  inRange : ∀ c ∈ cells, c.InRange
  /-- It goes from neighbour to neighbour. -/
  steps : cells.IsChain fun c d => ∃ dir : Direction, d = dir.next c
  /-- No cell is entered that is taken along both axes. -/
  entered : ∀ c ∈ cells, c ≠ source → c ≠ target →
    ∃ d : Direction, d.runsAlong (taken c) = false
  /-- The walk passes straight through a taken cell, along a free axis. -/
  straight : ∀ before c after, [before, c, after] <:+: cells → c ≠ source → c ≠ target →
    (taken c).isEmpty = false → ∃ d : Direction, d.runsAlong (taken c) = false ∧
      c = d.next before ∧ after = d.next c

theorem CellWalk.single {c : Cell} (hc : c.InRange) (taken : Cell → Axes) :
    CellWalk c c taken [c] where
  head := rfl
  last := rfl
  inRange := fun d hd => List.mem_singleton.1 hd ▸ hc
  steps := .singleton c
  entered := fun d hd hne => absurd (List.mem_singleton.1 hd) hne
  straight := fun before d after h => absurd h.length_le (by simp)

/-- Neighbours are different cells of one column or one row. -/
theorem CellWalk.lines {source target : Cell} {taken : Cell → Axes} {cells : List Cell}
    (h : CellWalk source target taken cells) :
    cells.IsChain fun c d => c ≠ d ∧ (c.1 = d.1 ∨ c.2 = d.2) := by
  have hsteps := h.steps
  rw [List.isChain_iff_getElem] at hsteps ⊢
  intro i hi
  obtain ⟨dir, hdir⟩ := hsteps i hi
  rw [hdir]
  exact dir.next_line (h.inRange _ (List.getElem_mem _))

/-- A state of a walk that is not its first one has a state before it. -/
theorem exists_before {states : List GridState} {R : GridState → GridState → Prop}
    (h : states.IsChain R) {t : GridState} (ht : t ∈ states) (hfirst : states.head? ≠ some t) :
    ∃ s, R s t := by
  obtain ⟨front, rest, rfl⟩ := List.append_of_mem ht
  cases front using List.reverseRecOn with
  | nil => exact absurd rfl hfirst
  | append_singleton front s =>
    rw [List.append_assoc, List.singleton_append] at h
    exact ⟨s, (List.isChain_cons_cons.1 (List.isChain_append.1 h).2.1).1⟩

variable {r : Router α} {start finish : Point α} {obstacles : List (Rect α)}

omit [Scalar α] in
theorem cellOf_inRange [Scalar α] (r : Router α) (p : Point α) : (r.cellOf p).InRange :=
  ⟨isInt64_clampInt64 _, isInt64_clampInt64 _⟩

/-- The walk of a search in a region, as cells. -/
theorem cellWalk_of_isWalk {g : Region} {grid : Grid} {w : Walk} {source target : Cell}
    {taken : Cell → Axes} {states : List GridState}
    (hgrid : grid.taken = fun x y => taken (g.cell x y)) (hsource : source.InRange)
    (htarget : target.InRange) (hstart : w.start = g.place source)
    (hfinish : w.finish = g.place target) (h : grid.IsWalk w states) :
    CellWalk source target taken (states.map fun s => g.cell s.x s.y) := by
  -- The ends of the walk are told by their coordinates and by their cells alike.
  have hends : ∀ {o : Option GridState} {c : Cell}, c.InRange →
      o.map GridState.cell = some (g.place c) → o.map (fun s => g.cell s.x s.y) = some c := by
    intro o c hc ho
    obtain ⟨s, rfl, hs⟩ := Option.map_eq_some_iff.1 ho
    exact congrArg some (g.cell_of_place hc hs)
  have hfree : ∀ {s t : GridState}, grid.Step w s t → g.cell t.x t.y ≠ target →
      t.heading.runsAlong (taken (g.cell t.x t.y)) = false := by
    intro s t hstep hne
    have henter := hstep.enter
    rw [Grid.mayEnter, Bool.and_eq_true, Bool.or_eq_true, beq_iff_eq, hfinish, hgrid] at henter
    have hother := henter.2.resolve_left fun hplace => hne (g.cell_of_place htarget hplace)
    rwa [Bool.not_eq_true'] at hother
  exact {
    head := by rw [List.head?_map]; exact hends hsource (hstart ▸ h.first)
    last := by rw [List.getLast?_map]; exact hends htarget (hfinish ▸ h.last)
    inRange := fun c hc => by
      obtain ⟨s, -, rfl⟩ := List.mem_map.1 hc
      exact g.cell_inRange _ _
    steps := by
      rw [List.isChain_map]
      exact h.steps.imp fun s t hstep => ⟨t.heading, g.cell_step hstep⟩
    entered := fun c hc hcsource hctarget => by
      obtain ⟨t, ht, rfl⟩ := List.mem_map.1 hc
      have hhead : states.head? ≠ some t := fun hhead => by
        have hfirst := h.first
        rw [hhead, hstart] at hfirst
        exact hcsource (g.cell_of_place hsource (Option.some.inj hfirst))
      obtain ⟨s, hstep⟩ := exists_before h.steps ht hhead
      exact ⟨t.heading, hfree hstep hctarget⟩
    straight := fun before c after hinfix hcsource hctarget htaken => by
      -- the three cells are those of three states, a step between any two
      obtain ⟨s, t, u, hl, rfl, rfl, rfl⟩ := exists_of_infix_map hinfix
      have hsteps := List.IsChain.infix h.steps hl
      obtain ⟨hst, hchain⟩ := List.isChain_cons_cons.1 hsteps
      have htu := (List.isChain_cons_cons.1 hchain).1
      have hcrossing : grid.isCrossing w t = true := by
        simp only [Grid.isCrossing, hgrid, htaken, hstart, Bool.not_false, Bool.and_true,
          decide_eq_true_eq]
        exact fun hplace => hcsource (g.cell_of_place hsource hplace)
      refine ⟨t.heading, hfree hst hctarget, g.cell_step hst, ?_⟩
      rw [htu.straight hcrossing]
      exact g.cell_step htu }

/-- In an inside region the walk goes to one of the four neighbours each time. -/
theorem isChain_of_isWalk {g : Region} {grid : Grid} {w : Walk} {states : List GridState}
    (hcols : grid.cols = g.cols) (hrows : grid.rows = g.rows) (hinside : g.Inside)
    (h : grid.IsWalk w states) :
    (states.map fun s => g.cell s.x s.y).IsChain fun c d => ∃ dir : Direction, d = dir.move c := by
  rw [List.isChain_map]
  refine h.steps.imp fun s t hstep => ⟨t.heading, ?_⟩
  have hregion := Grid.contains_iff.1 hstep.inside
  rw [hcols, hrows] at hregion
  change (0 ≤ t.cell.1 ∧ t.cell.1 < _) ∧ 0 ≤ t.cell.2 ∧ t.cell.2 < _ at hregion
  change g.cell t.cell.1 t.cell.2 = t.heading.move (g.cell s.cell.1 s.cell.2)
  rw [hstep.move] at hregion ⊢
  exact hinside.cell_move hregion.1 hregion.2

/-- The cells that the search answers with, out of its region. -/
theorem cellPath_cellWalk {taken : Cell → Axes} {cells : List Cell}
    (h : r.cellPath start finish obstacles taken = .ok cells) :
    CellWalk (r.cellOf start) (r.cellOf finish) taken cells ∧
      ((r.region (r.cellOf start) (r.cellOf finish) obstacles).Inside →
        cells.IsChain fun c d => ∃ dir : Direction, d = dir.move c) := by
  unfold cellPath at h
  simp only at h
  split at h
  · exact absurd h (by simp)
  split at h
  · next found hfound =>
    obtain rfl := Except.ok.inj h
    obtain ⟨states, rfl, hwalk⟩ := Grid.search?_isWalk hfound
    rw [List.map_map]
    exact ⟨cellWalk_of_isWalk rfl (cellOf_inRange r start) (cellOf_inRange r finish) rfl rfl hwalk,
      fun hinside => isChain_of_isWalk rfl rfl hinside hwalk⟩
  · exact absurd h (by simp)

/-- A found path is the compressed path of a walk of cells. -/
theorem routeNet_cellWalk {occupancy : Occupancy α} {net : NetId} {points : List (Point α)}
    (h : r.routeNet start finish obstacles occupancy net = .ok points) :
    ∃ cells, points = compressPath (cells.map (Cell.point r.pitch)) ∧
      CellWalk (r.cellOf start) (r.cellOf finish) (fun c => occupancy.foreign c net) cells ∧
      ((r.region (r.cellOf start) (r.cellOf finish) obstacles).Inside →
        cells.IsChain fun c d => ∃ dir : Direction, d = dir.move c) := by
  unfold routeNet path at h
  split at h
  · next heq =>
    obtain rfl := Except.ok.inj h
    refine ⟨[r.cellOf start], rfl, ?_, fun _ => .singleton _⟩
    rw [← heq]
    exact .single (cellOf_inRange r start) _
  · cases hcells : r.cellPath start finish obstacles fun c => occupancy.foreign c net with
    | error e =>
      rw [hcells] at h
      exact absurd h (by simp [Except.map])
    | ok cells =>
      rw [hcells] at h
      obtain rfl := Except.ok.inj h
      exact ⟨cells, rfl, cellPath_cellWalk hcells⟩

end Router

/-! ### Drawing step after step -/

/-- One step of drawing. -/
inductive RoutingStep (α : Type) where
  /-- Draw a given wire. -/
  | wire (w : Wire α)
  /-- Find a path for a net and draw it. -/
  | path (net : NetId) (start finish : Point α) (obstacles : List (Rect α))

/-- The wires drawn so far, and the cells they take. -/
structure Drawn (α : Type) where
  /-- The taken cells. -/
  occupancy : Occupancy α
  /-- The wires. -/
  wires : List (Wire α)

namespace Router

/-- The wires that a step draws; none when no path is found. -/
def stepWires (r : Router α) (o : Occupancy α) : RoutingStep α → List (Wire α)
  | .wire w => [w]
  | .path net start finish obstacles =>
      match r.routeNet start finish obstacles o net with
      | .ok points => wiresAlong net points
      | .error _ => []

/-- Draw what a step asks for. -/
def drawStep (r : Router α) (s : Drawn α) (step : RoutingStep α) : Drawn α :=
  let wires := r.stepWires s.occupancy step
  { occupancy := s.occupancy.addWires wires, wires := s.wires ++ wires }

/-- Draw what some steps ask for, on an empty sheet. -/
def draw (r : Router α) (steps : List (RoutingStep α)) : Drawn α :=
  steps.foldl r.drawStep { occupancy := { pitch := r.pitch }, wires := [] }

end Router

/-- The cells of all wires are taken by their nets. -/
structure Drawn.Recorded (s : Drawn α) (pitch : α) : Prop where
  /-- The cells are those of the grid. -/
  pitch_eq : s.occupancy.pitch = pitch
  /-- The cells of a wire are taken. -/
  taken : ∀ w ∈ s.wires, ∀ x ∈ Occupancy.segmentCells pitch w.a w.b,
    (w.net, x.2) ∈ s.occupancy.entriesAt x.1

/-- Drawing more wires keeps the cells of all wires taken. -/
theorem Drawn.Recorded.addWires {s : Drawn α} {pitch : α} (h : s.Recorded pitch)
    (wires : List (Wire α)) :
    Drawn.Recorded ⟨s.occupancy.addWires wires, s.wires ++ wires⟩ pitch := by
  induction wires generalizing s with
  | nil => rwa [List.append_nil]
  | cons w wires ih =>
    have hfirst : Drawn.Recorded ⟨s.occupancy.addSegment w.net w.a w.b, s.wires ++ [w]⟩ pitch := by
      refine ⟨h.pitch_eq, fun w' hw' x hx => ?_⟩
      refine Occupancy.mem_entriesAt_addSegment.2 ?_
      rcases List.mem_append.1 hw' with hw' | hw'
      · exact .inl (h.taken w' hw' x hx)
      · obtain rfl := List.mem_singleton.1 hw'
        exact .inr ⟨x, by rwa [h.pitch_eq], rfl, rfl⟩
    have := ih hfirst
    rwa [List.append_assoc] at this

namespace Router

/-- After every step the cells of all wires are taken. -/
theorem recorded_draw (r : Router α) (steps : List (RoutingStep α)) :
    (r.draw steps).Recorded r.pitch := by
  have hsteps : ∀ s : Drawn α, s.Recorded r.pitch →
      (steps.foldl r.drawStep s).Recorded r.pitch := by
    induction steps with
    | nil => exact fun s hs => hs
    | cons step steps ih => exact fun s hs => ih _ (hs.addWires _)
  exact hsteps _ ⟨rfl, nofun⟩

open scoped Scalar
open ExactScalar

variable [ExactScalar α]

/-- A path of a net, drawn along a walk of cells, only crosses the wires of other
nets. -/
structure OnlyCrosses (r : Router α) (wires : List (Wire α)) (net : NetId)
    (start finish : Point α) (obstacles : List (Rect α)) (points : List (Point α))
    (cells : List Cell) : Prop where
  /-- The path is drawn along the cells. -/
  drawn : points = compressPath (cells.map (Cell.point r.pitch))
  /-- They start with the cell nearest to the one end. -/
  head : cells.head? = some (r.cellOf start)
  /-- They end with the cell nearest to the other end. -/
  last : cells.getLast? = some (r.cellOf finish)
  /-- They go from neighbour to neighbour. -/
  steps : cells.IsChain fun c d => ∃ dir : Direction, d = dir.next c
  /-- The wires of the path pass no other cells, unless the search has wrapped
  around. -/
  covers : (r.region (r.cellOf start) (r.cellOf finish) obstacles).Inside →
    ∀ w ∈ wiresAlong net points, ∀ c : Cell, (c.point r.pitch).OnRun w.a w.b → c ∈ cells
  /-- The wires of the path are horizontal or vertical. -/
  parallel : ∀ w ∈ wiresAlong net points, AxisParallel w.a w.b
  /-- Between the ends of the path, a cell on a wire of another net lies strictly
  between the ends of that wire, and the path passes it straight on and at right
  angles to the wire. -/
  crosses : ∀ c ∈ cells, c ≠ r.cellOf start → c ≠ r.cellOf finish →
    ∀ w ∈ wires, w.net ≠ net → AxisParallel w.a w.b → (c.point r.pitch).OnRun w.a w.b →
      (c.point r.pitch ≠ w.a ∧ c.point r.pitch ≠ w.b) ∧
      ∀ before after, [before, c, after] <:+: cells →
        ∃ d : Direction, d.Crosses w.a w.b ∧ c = d.next before ∧ after = d.next c

/-- Whatever wires and paths were drawn before, a path that is found for a net
only crosses the wires of other nets. -/
theorem paths_only_cross (r : Router α) (hpitch : (1e-9 : α) < r.pitch)
    (steps : List (RoutingStep α)) (net : NetId) (start finish : Point α)
    (obstacles : List (Rect α)) (points : List (Point α))
    (h : r.routeNet start finish obstacles (r.draw steps).occupancy net = .ok points) :
    ∃ cells, r.OnlyCrosses (r.draw steps).wires net start finish obstacles points cells := by
  have hpos := pitch_pos hpitch
  obtain ⟨cells, rfl, hwalk, hplain⟩ := routeNet_cellWalk h
  have hwires : ∀ {w : Wire α}, w ∈ wiresAlong net (compressPath (cells.map (Cell.point r.pitch))) →
      (w.a, w.b) ∈ segments (compressPath (cells.map (Cell.point r.pitch))) := by
    intro w hw
    obtain ⟨s, hs, rfl⟩ := List.mem_map.1 hw
    exact hs
  refine ⟨cells, rfl, hwalk.head, hwalk.last, hwalk.steps,
    fun hinside w hw c hc => mem_of_onRun_segment hpitch (hplain hinside) _ (hwires hw) c hc,
    fun w hw => axisParallel_of_mem_segments hpitch hwalk.lines _ (hwires hw), ?_⟩
  intro c hc hsource htarget w hw hnet hparallel hon
  obtain ⟨axes, hmem, hfree⟩ := hparallel.taken hpos (hwalk.inRange c hc) hon
  have hentry := (recorded_draw r steps).taken w hw _ hmem
  -- What is free among the wires of all other nets is free beside this one.
  have hpass : ∀ d : Direction, d.runsAlong ((r.draw steps).occupancy.foreign c net) = false →
      d.Crosses w.a w.b ∧ c.point r.pitch ≠ w.a ∧ c.point r.pitch ≠ w.b := by
    intro d hd
    refine hfree d (Bool.eq_false_iff.2 fun halong => ?_)
    exact Bool.eq_false_iff.1 hd (Occupancy.runsAlong_foreign.2 ⟨_, hentry, hnet, halong⟩)
  have htaken : ((r.draw steps).occupancy.foreign c net).isEmpty = false := by
    by_contra hempty
    rw [Occupancy.isEmpty_iff_runsAlong, not_exists] at hempty
    have hall := fun d => (hpass d (Bool.eq_false_iff.2 (hempty d))).1
    rcases hparallel.aligned with hline | hline
    · exact absurd ((hall .left).1 hline) (by decide)
    · exact absurd ((hall .up).2 hline) (by decide)
  obtain ⟨d, hd⟩ := hwalk.entered c hc hsource htarget
  refine ⟨(hpass d hd).2, fun before after hinfix => ?_⟩
  obtain ⟨d, hd, hbefore, hafter⟩ := hwalk.straight before c after hinfix hsource htarget htaken
  exact ⟨d, (hpass d hd).1, hbefore, hafter⟩

/-- A router on a grid of whole millimetres. -/
def sampleRouter : Router ℚ := { pitch := 1, turnPenalty := 1, margin := 0, maxCells := 100 }

/-- Net `1` is drawn from top to bottom. -/
def sampleSteps : List (RoutingStep ℚ) := [.path 1 ⟨1, -1⟩ ⟨1, 1⟩ []]

theorem eq_ok_of_toOption {ε β : Type} {x : Except ε β} {v : β} (h : x.toOption = some v) :
    x = .ok v := by
  cases x with
  | error e => exact absurd h (by simp [Except.toOption])
  | ok w => exact congrArg Except.ok (Option.some.inj h)

/-- The grid before anything is drawn. -/
def sampleGrid : Occupancy ℚ := { pitch := 1 }

theorem sampleRouter_draw : (sampleRouter.draw sampleSteps).wires = [⟨1, ⟨1, -1⟩, ⟨1, 1⟩⟩] ∧
    (sampleRouter.draw sampleSteps).occupancy = sampleGrid.addSegment 1 ⟨1, -1⟩ ⟨1, 1⟩ := by
  have hroute : sampleRouter.routeNet ⟨1, -1⟩ ⟨1, 1⟩ [] sampleGrid 1 =
      .ok [⟨1, -1⟩, ⟨1, 1⟩] := by
    have hfree : (fun c => sampleGrid.foreign c 1) = fun _ => .none := by
      funext c
      rw [Occupancy.foreign, sampleGrid, Std.HashMap.getD_empty, List.foldl_nil]
    rw [routeNet, hfree]
    exact eq_ok_of_toOption (by decide +kernel)
  have hstep : sampleRouter.stepWires sampleGrid (.path 1 ⟨1, -1⟩ ⟨1, 1⟩ []) =
      [⟨1, ⟨1, -1⟩, ⟨1, 1⟩⟩] := by
    rw [stepWires, hroute]
    rfl
  exact ⟨hstep, congrArg sampleGrid.addWires hstep⟩

/-- The axes that net `1` has taken. -/
theorem sampleRouter_foreign (c : Cell) :
    (sampleRouter.draw sampleSteps).occupancy.foreign c 0 =
      if c = (1, -1) ∨ c = (1, 1) then .both else if c = (1, 0) then .alongY else .none := by
  have hcells : Occupancy.segmentCells sampleGrid.pitch ⟨1, -1⟩ ⟨1, 1⟩ =
      [((1, -1), .both), ((1, 0), .alongY), ((1, 1), .both)] := by decide +kernel
  rw [sampleRouter_draw.2, Occupancy.addSegment, hcells]
  simp only [Occupancy.foreign, List.foldl_cons, List.foldl_nil, Occupancy.take, sampleGrid,
    Std.HashMap.getD_insert, Std.HashMap.getD_empty]
  by_cases htop : c = (1, -1)
  · subst htop
    decide
  by_cases hbottom : c = (1, 1)
  · subst hbottom
    decide
  by_cases hmiddle : c = (1, 0)
  · subst hmiddle
    decide
  simp [htop, hbottom, hmiddle, Ne.symm htop, Ne.symm hbottom, Ne.symm hmiddle]

/-- Net `0` is drawn from left to right, across the wire of net `1`. -/
theorem sampleRouter_crosses :
    sampleRouter.routeNet ⟨0, 0⟩ ⟨2, 0⟩ [] (sampleRouter.draw sampleSteps).occupancy 0 =
      .ok [⟨0, 0⟩, ⟨2, 0⟩] ∧
    ∃ cells : List Cell, (1, 0) ∈ cells ∧
      sampleRouter.OnlyCrosses [⟨1, ⟨1, -1⟩, ⟨1, 1⟩⟩] 0 ⟨0, 0⟩ ⟨2, 0⟩ []
        [⟨0, 0⟩, ⟨2, 0⟩] cells := by
  have hroute : sampleRouter.routeNet ⟨0, 0⟩ ⟨2, 0⟩ []
      (sampleRouter.draw sampleSteps).occupancy 0 = .ok [⟨0, 0⟩, ⟨2, 0⟩] := by
    rw [routeNet, funext sampleRouter_foreign]
    exact eq_ok_of_toOption (by decide +kernel)
  obtain ⟨cells, h⟩ := paths_only_cross sampleRouter (by decide +kernel) sampleSteps 0 ⟨0, 0⟩
    ⟨2, 0⟩ [] _ hroute
  rw [sampleRouter_draw.1] at h
  refine ⟨hroute, cells, ?_, h⟩
  refine h.covers (by decide +kernel) ⟨0, ⟨0, 0⟩, ⟨2, 0⟩⟩ (List.mem_singleton_self _) (1, 0) ?_
  unfold Point.OnRun Between
  decide +kernel

end Router

end Schematic
