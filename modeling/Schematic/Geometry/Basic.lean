import Schematic.Number.Scalar

/-!
# Points and rectangles of the sheet

Sheet coordinates are millimetres: `x` grows rightward and `y` downward.  A
rectangle is given by its top left corner and its size.

## Main definitions

* `Point`, `Rect` — points and axis-aligned rectangles.
* `Rect.overlaps`, `Rect.crossedBy` — what two boxes, or a box and a wire, may
  not do to each other.
* `onSegment` — a point on a segment, within a tolerance.
* `snap`, `Point.snap` — the nearest grid line, the nearest grid point.
-/

namespace Schematic

open Scalar

/-- A point of the sheet. -/
structure Point (α : Type) where
  /-- The distance from the left edge. -/
  x : α
  /-- The distance from the top edge. -/
  y : α
  deriving BEq, Repr

/-- An axis-aligned rectangle. -/
structure Rect (α : Type) where
  /-- The left edge. -/
  x : α
  /-- The top edge. -/
  y : α
  /-- The width. -/
  w : α
  /-- The height. -/
  h : α
  deriving BEq, Repr

variable {α : Type} [Scalar α]

/-- Two numbers in ascending order. -/
@[inline] def sorted2 (a b : α) : α × α := if a ≤ b then (a, b) else (b, a)

/-! ### Points -/

namespace Point

/-- The corner of the sheet. -/
def origin : Point α := ⟨0, 0⟩

instance : Inhabited (Point α) := ⟨origin⟩

/-- The point moved by an offset. -/
@[inline] def offset (p : Point α) (dx dy : α) : Point α := ⟨p.x + dx, p.y + dy⟩

/-- Whether two points agree on both axes within a tolerance. -/
@[inline] def near (p q : Point α) (tol : α) : Bool :=
  Scalar.abs (p.x - q.x) ≤ tol && Scalar.abs (p.y - q.y) ≤ tol

/-- The distance along the axes. -/
def manhattan (p q : Point α) : α := Scalar.abs (p.x - q.x) + Scalar.abs (p.y - q.y)

/-- A point in a message, with two decimals. -/
def text (p : Point α) : String :=
  "(" ++ Scalar.fixed 2 p.x ++ ", " ++ Scalar.fixed 2 p.y ++ ")"

end Point

/-! ### Rectangles -/

namespace Rect

/-- The rectangle of no size at the corner of the sheet. -/
def zero : Rect α := ⟨0, 0, 0, 0⟩

instance : Inhabited (Rect α) := ⟨zero⟩

/-- The right edge. -/
@[inline] def right (r : Rect α) : α := r.x + r.w

/-- The bottom edge. -/
@[inline] def bottom (r : Rect α) : α := r.y + r.h

/-- The middle. -/
@[inline] def center (r : Rect α) : Point α := ⟨r.x + r.w / 2, r.y + r.h / 2⟩

/-- The rectangle of a size around a point. -/
def centered (c : Point α) (w h : α) : Rect α := ⟨c.x - w / 2, c.y - h / 2, w, h⟩

/-- The rectangle of no size at a point. -/
@[inline] def ofPoint (p : Point α) : Rect α := ⟨p.x, p.y, 0, 0⟩

/-- The smallest rectangle around two corners. -/
def ofCorners (a b : Point α) : Rect α :=
  let (x0, x1) := sorted2 a.x b.x
  let (y0, y1) := sorted2 a.y b.y
  ⟨x0, y0, x1 - x0, y1 - y0⟩

/-- Whether the interiors meet; a shared edge is no overlap. -/
@[inline] def overlaps (r s : Rect α) : Bool :=
  r.x < s.right && s.x < r.right && r.y < s.bottom && s.y < r.bottom

/-- Whether a point lies in the rectangle or on its edge. -/
def contains (r : Rect α) (p : Point α) : Bool :=
  r.x ≤ p.x && p.x ≤ r.right && r.y ≤ p.y && p.y ≤ r.bottom

/-- Whether a point lies strictly inside. -/
@[inline] def strictlyContains (r : Rect α) (p : Point α) : Bool :=
  r.x < p.x && p.x < r.right && r.y < p.y && p.y < r.bottom

/-- The rectangle grown on every side. -/
def inflate (r : Rect α) (pad : α) : Rect α :=
  ⟨r.x - pad, r.y - pad, r.w + 2 * pad, r.h + 2 * pad⟩

/-- The rectangle moved by an offset. -/
def translate (r : Rect α) (dx dy : α) : Rect α := ⟨r.x + dx, r.y + dy, r.w, r.h⟩

/-- The smallest rectangle around two rectangles. -/
def union (r s : Rect α) : Rect α :=
  let x0 := Scalar.min r.x s.x
  let y0 := Scalar.min r.y s.y
  let x1 := Scalar.max r.right s.right
  let y1 := Scalar.max r.bottom s.bottom
  ⟨x0, y0, x1 - x0, y1 - y0⟩

/-- The point that divides a segment at `i` of 32 equal steps. -/
def sample (a b : Point α) (i : Nat) : Point α :=
  let t : α := Scalar.ofInt i / 32
  ⟨a.x + (b.x - a.x) * t, a.y + (b.y - a.y) * t⟩

/-- Whether the segment from `a` to `b` passes through the interior.  A slanted
segment is sampled at its 33 dividing points. -/
@[specialize] def crossedBy (r : Rect α) (a b : Point α) : Bool :=
  if Scalar.abs (a.y - b.y) < 1e-9 then
    let (x0, x1) := sorted2 a.x b.x
    r.y < a.y && a.y < r.bottom && x0 < r.right && r.x < x1
  else if Scalar.abs (a.x - b.x) < 1e-9 then
    let (y0, y1) := sorted2 a.y b.y
    r.x < a.x && a.x < r.right && y0 < r.bottom && r.y < y1
  else
    (List.range 33).any fun i => r.strictlyContains (sample a b i)

end Rect

/-! ### Segments and the grid -/

/-- Whether `p` lies on the segment from `a` to `b` within a tolerance. -/
@[specialize] def onSegment (p a b : Point α) (tol : α) : Bool :=
  let (x0, x1) := sorted2 a.x b.x
  let (y0, y1) := sorted2 a.y b.y
  if p.x < x0 - tol || x1 + tol < p.x || p.y < y0 - tol || y1 + tol < p.y then false
  else
    let dx := b.x - a.x
    let dy := b.y - a.y
    let length := Scalar.hypot dx dy
    if length < 1e-12 then p.near a tol
    else Scalar.abs ((p.x - a.x) * dy - (p.y - a.y) * dx) / length ≤ tol

/-- The multiple of the pitch nearest to a coordinate; a pitch that is not
positive leaves it alone. -/
def snap (v pitch : α) : α := if pitch ≤ 0 then v else Scalar.round (v / pitch) * pitch

/-- The grid point nearest to a point. -/
def Point.snap (p : Point α) (pitch : α) : Point α :=
  ⟨Schematic.snap p.x pitch, Schematic.snap p.y pitch⟩

end Schematic
