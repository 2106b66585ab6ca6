import Schematic.Config
import Schematic.Routing.GridSearch
import Schematic.Routing.Occupancy
import Schematic.Routing.Path

/-!
# Routing

A connection is routed on a grid with a fixed pitch.  Both ends are brought onto
the grid, the cells strictly inside an obstacle are blocked unless one of the
ends asked for lies there, and the cheapest walk around them becomes the path.
Wires of other nets may be crossed at right angles; a path neither follows them
nor turns on them.

## Main definitions

* `Router` — the settings in use.
* `RouteError` — why there is no path.
* `Router.Region`, `Router.region` — the cells to search in.
* `Router.route`, `Router.routeNet` — a path regardless of other wires, a path
  among them.
-/

namespace Schematic

open Scalar

/-- Why there is no path. -/
inductive RouteError (α : Type) where
  /-- No walk leads from one point to the other. -/
  | noPath (source target : Point α)
  /-- The region to search is too large. -/
  | gridTooLarge (cells limit : Nat)
  deriving Repr

/-- A router's settings. -/
structure Router (α : Type) where
  /-- The pitch of the grid. -/
  pitch : α
  /-- The extra cost of a change of direction. -/
  turnPenalty : Nat
  /-- The free cells around the region; a negative margin narrows it. -/
  margin : Int
  /-- The most cells a region may have. -/
  maxCells : Nat
  deriving Repr

variable {α : Type} [Scalar α]

/-- The wording of an error. -/
def RouteError.message : RouteError α → String
  | .noPath source target => "no path from " ++ source.text ++ " to " ++ target.text
  | .gridTooLarge cells limit =>
      "routing region of " ++ digitText cells ++ " cells exceeds the limit of " ++ digitText limit

namespace Router

/-- The router of a configuration; a pitch that is not positive is replaced, and
a margin beyond 64 signed bits is a negative one. -/
def ofConfig (c : RouterConfig α) : Router α :=
  { pitch := if 0 < c.pitch then c.pitch else 1.27
    turnPenalty := c.turnPenalty
    margin := wrapInt64 c.marginCells
    maxCells := c.maxCells }

/-- The cell nearest to a point. -/
def cellOf (r : Router α) (p : Point α) : Cell :=
  (Scalar.toIndex (Scalar.round (p.x / r.pitch)), Scalar.toIndex (Scalar.round (p.y / r.pitch)))

/-- The point of a cell. -/
@[inline] def pointOf (r : Router α) (c : Cell) : Point α :=
  ⟨Scalar.ofInt c.1 * r.pitch, Scalar.ofInt c.2 * r.pitch⟩

/-- The cells that a rectangle touches, by its first and its last one. -/
def span (r : Router α) (box : Rect α) : Cell × Cell :=
  ((Scalar.toIndex (Scalar.floor (box.x / r.pitch)),
    Scalar.toIndex (Scalar.floor (box.y / r.pitch))),
   (Scalar.toIndex (Scalar.ceil (box.right / r.pitch)),
    Scalar.toIndex (Scalar.ceil (box.bottom / r.pitch))))

/-- The cells to search in. -/
structure Region where
  /-- The first cell. -/
  base : Cell
  /-- The number of columns. -/
  cols : Nat
  /-- The number of rows. -/
  rows : Nat
  deriving Repr

/-- The number of cells, cut to 64 bits. -/
def Region.size (g : Region) : Nat := min (g.cols * g.rows) 18446744073709551615

/-- A number of columns or rows, wrapped around into 64 bits. -/
def extent (n : Int) : Nat := (n % 18446744073709551616).toNat

/-- The region around two cells and all obstacles, with a margin. -/
def region (r : Router α) (start finish : Cell) (obstacles : List (Rect α)) : Region :=
  let spans : List (Cell × Cell) := obstacles.map r.span
  let x0 := spans.foldl (fun (m : Int) s => min m s.1.1) (min start.1 finish.1)
  let y0 := spans.foldl (fun (m : Int) s => min m s.1.2) (min start.2 finish.2)
  let x1 := spans.foldl (fun (m : Int) s => max m s.2.1) (max start.1 finish.1)
  let y1 := spans.foldl (fun (m : Int) s => max m s.2.2) (max start.2 finish.2)
  { base := (x0 - r.margin, y0 - r.margin)
    cols := extent (x1 - x0 + 1 + 2 * r.margin)
    rows := extent (y1 - y0 + 1 + 2 * r.margin) }

/-- The cell of a region in a column and row. -/
@[inline] def Region.cell (g : Region) (x y : Int) : Cell :=
  (wrapInt64 (g.base.1 + x), wrapInt64 (g.base.2 + y))

/-- The column and row of a cell, counted from the first one of a region. -/
def Region.place (g : Region) (c : Cell) : Int × Int :=
  (wrapInt64 (c.1 - g.base.1), wrapInt64 (c.2 - g.base.2))

/-- Whether an obstacle blocks a point: it lies strictly inside, and is none of
the points that a path may start or end at. -/
@[inline] def blocks (box : Rect α) (exempt : List (Point α)) (p : Point α) : Bool :=
  box.strictlyContains p && !exempt.any fun e => e.near p 1e-6

/-- Block the cells of a region that lie strictly inside an obstacle. -/
@[specialize] def blockBox (r : Router α) (g : Region) (exempt : List (Point α))
    (blocked : Array Bool) (box : Rect α) : Array Bool :=
  let s := r.span box
  let first := g.place s.1
  let last := g.place s.2
  let x0 := first.1.toNat
  let y0 := first.2.toNat
  let x1 := min last.1.toNat (g.cols - 1)
  let y1 := min last.2.toNat (g.rows - 1)
  (List.range' y0 (y1 + 1 - y0)).foldl
    (fun blocked (y : Nat) =>
      (List.range' x0 (x1 + 1 - x0)).foldl
        (fun blocked (x : Nat) =>
          if blocks box exempt (r.pointOf (g.cell x y)) then
            blocked.setIfInBounds (y * g.cols + x) true
          else blocked)
        blocked)
    blocked

/-- The blocked cells of a region, row by row. -/
@[specialize] def blockedCells (r : Router α) (g : Region) (obstacles : List (Rect α))
    (exempt : List (Point α)) : Array Bool :=
  obstacles.foldl (r.blockBox g exempt) (Array.replicate (g.cols * g.rows) false)

/-- The cells of a cheapest walk between two points, in a region that is not too
large.  `taken` tells the axes that other nets have taken in a cell. -/
def cellPath (r : Router α) (start finish : Point α) (obstacles : List (Rect α))
    (taken : Cell → Axes) : Except (RouteError α) (List Cell) :=
  let g := r.region (r.cellOf start) (r.cellOf finish) obstacles
  if r.maxCells < g.size then .error (.gridTooLarge g.size r.maxCells)
  else
    let grid : Grid :=
      { cols := g.cols
        rows := g.rows
        blocked := r.blockedCells g obstacles [start, finish]
        taken := fun x y => taken (g.cell x y) }
    let walk : Walk :=
      { start := g.place (r.cellOf start)
        finish := g.place (r.cellOf finish)
        turnPenalty := r.turnPenalty }
    match grid.search? walk with
    | some cells => .ok (cells.map fun c => g.cell c.1 c.2)
    | none => .error (.noPath start finish)

/-- A path between two points around obstacles.  It starts and ends at the grid
points nearest to them. -/
def path (r : Router α) (start finish : Point α) (obstacles : List (Rect α))
    (taken : Cell → Axes) : Except (RouteError α) (List (Point α)) :=
  if r.cellOf start = r.cellOf finish then .ok [r.pointOf (r.cellOf start)]
  else
    (r.cellPath start finish obstacles taken).map fun cells =>
      compressPath (cells.map r.pointOf)

/-- A path around obstacles that pays no heed to wires. -/
def route (r : Router α) (start finish : Point α) (obstacles : List (Rect α)) :
    Except (RouteError α) (List (Point α)) :=
  r.path start finish obstacles fun _ => .none

/-- A path around obstacles for a net, among the wires of other nets. -/
def routeNet (r : Router α) (start finish : Point α) (obstacles : List (Rect α))
    (occupancy : Occupancy α) (net : NetId) : Except (RouteError α) (List (Point α)) :=
  r.path start finish obstacles fun c => occupancy.foreign c net

end Router

end Schematic
