import Std.Data.HashMap
import Schematic.Circuit.Model
import Schematic.Routing.Axes

/-!
# Cells taken by wires

Wires that are drawn take cells of the routing grid.  A cell inside a straight
run is taken along the run's axis only, so that other nets may cross there; the
cells at the ends of a run are taken along both axes, so that no other net can
join there.

## Main definitions

* `Occupancy` — the taken cells of a grid.
* `Occupancy.addSegment` — a wire is drawn.
* `Occupancy.foreign` — the axes that other nets have taken in a cell.
-/

namespace Schematic

open Scalar

/-- A cell of the routing grid, by column and row. -/
abbrev Cell := Int × Int

/-- The cells taken by wires on a grid of some pitch. -/
structure Occupancy (α : Type) where
  /-- The pitch of the grid. -/
  pitch : α
  /-- The nets in each taken cell, with the axes they have taken. -/
  cells : Std.HashMap Cell (List (NetId × Axes)) := ∅

/-- A straight run along one axis: its distance from the axis, and its ends. -/
structure StraightRun (α : Type) where
  /-- Whether it is horizontal. -/
  horizontal : Bool
  /-- The coordinate that is the same all along. -/
  across : α
  /-- The lower end. -/
  low : α
  /-- The upper end. -/
  high : α
  deriving Repr

variable {α : Type} [Scalar α]

/-- The straight run of a segment; none for a point or a slanted segment. -/
def StraightRun.ofSegment? (a b : Point α) : Option (StraightRun α) :=
  if a.near b 1e-9 then none
  else if Scalar.abs (a.y - b.y) ≤ 1e-9 then
    some ⟨true, a.y, Scalar.min a.x b.x, Scalar.max a.x b.x⟩
  else if Scalar.abs (a.x - b.x) ≤ 1e-9 then
    some ⟨false, a.x, Scalar.min a.y b.y, Scalar.max a.y b.y⟩
  else none

/-- The axis of a run. -/
def StraightRun.axes (r : StraightRun α) : Axes := if r.horizontal then .alongX else .alongY

namespace Occupancy

/-- Whether a coordinate lies on a grid line. -/
def onGrid (pitch v : α) : Bool := Scalar.abs (Scalar.round (v / pitch) * pitch - v) ≤ 1e-6

/-- The axes that a run takes in the cell at a place along it: both at its
ends. -/
def axesAlong (pitch : α) (r : StraightRun α) (i : Int) : Axes :=
  let along := Scalar.ofInt i * pitch
  if Scalar.abs (along - r.low) ≤ 1e-6 || Scalar.abs (along - r.high) ≤ 1e-6 then .both
  else r.axes

/-- The cells of a run with the axes it takes in them; none for a run between
grid lines. -/
def runCells (pitch : α) (r : StraightRun α) : List (Cell × Axes) :=
  if onGrid pitch r.across then
    let k := Scalar.toIndex (Scalar.round (r.across / pitch))
    let first := Scalar.toIndex (Scalar.ceil (r.low / pitch - 1e-6))
    let last := Scalar.toIndex (Scalar.floor (r.high / pitch + 1e-6))
    (List.range (last + 1 - first).toNat).map fun (n : Nat) =>
      let i := first + (n : Int)
      (if r.horizontal then (i, k) else (k, i), axesAlong pitch r i)
  else []

/-- The cells that a segment takes; none on a grid without a pitch. -/
def segmentCells (pitch : α) (a b : Point α) : List (Cell × Axes) :=
  if pitch ≤ 0 then []
  else
    match StraightRun.ofSegment? a b with
    | some r => runCells pitch r
    | none => []

/-- Note that a net has taken a cell along some axes. -/
def take (net : NetId) (cells : Std.HashMap Cell (List (NetId × Axes))) (c : Cell × Axes) :
    Std.HashMap Cell (List (NetId × Axes)) :=
  cells.insert c.1 ((net, c.2) :: cells.getD c.1 [])

/-- Draw a segment of a net.  What is not straight or not on the grid takes no
cells. -/
def addSegment (o : Occupancy α) (net : NetId) (a b : Point α) : Occupancy α :=
  { o with cells := (segmentCells o.pitch a b).foldl (take net) o.cells }

omit [Scalar α] in
/-- The axes along which nets other than `net` have taken a cell. -/
def foreign (o : Occupancy α) (cell : Cell) (net : NetId) : Axes :=
  (o.cells.getD cell []).foldl (fun axes e => if e.1 = net then axes else axes.union e.2) .none

omit [Scalar α] in
/-- Whether no cell is taken. -/
def isEmpty (o : Occupancy α) : Bool := o.cells.isEmpty

end Occupancy

end Schematic
