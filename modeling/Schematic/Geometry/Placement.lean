import Schematic.Geometry.Basic

/-!
# Placements

A placement is a position with a rotation, in degrees counter-clockwise as seen
on the sheet.  Placements compose: a part placed inside a frame is placed on the
sheet by the frame's placement composed with its own.

## Main definitions

* `normalizeDegrees` — an angle in `[0, 360)`.
* `rotateOffset` — an offset turned by an angle, quarter turns being exact.
* `Placement.compose`, `Placement.localize` — out of a frame and into it.
* `placeBox` — the box around a turned and moved box.
-/

namespace Schematic

open Scalar

/-- A position and a rotation in degrees. -/
structure Placement (α : Type) where
  /-- The horizontal position. -/
  x : α
  /-- The vertical position. -/
  y : α
  /-- The rotation in degrees, counter-clockwise. -/
  rotation : α
  deriving BEq, Repr

variable {α : Type} [Scalar α]

/-- An angle in degrees brought into `[0, 360)`; what is within `1e-9` of a whole
turn counts as none. -/
def normalizeDegrees (deg : α) : α :=
  let r := Scalar.remainder deg 360
  let r := if r < 0 then r + 360 else r
  if Scalar.abs (r - 360) < 1e-9 then 0 else r

/-- Turn an offset counter-clockwise, as seen on a sheet whose `y` points
downward.  Quarter turns only swap and negate, so they lose no precision. -/
def rotateOffset (dx dy deg : α) : α × α :=
  let r := normalizeDegrees deg
  let quarter := r / 90
  if Scalar.abs (quarter - Scalar.round quarter) < 1e-9 then
    match Scalar.truncate (Scalar.round quarter) % 4 with
    | 0 => (dx, dy)
    | 1 => (dy, -dx)
    | 2 => (-dx, -dy)
    | _ => (-dy, dx)
  else
    let radians := r * (Scalar.pi / 180)
    let s := Scalar.sin radians
    let c := Scalar.cos radians
    (dx * c + dy * s, -dx * s + dy * c)

namespace Placement

/-- The placement at the origin without a rotation. -/
def origin : Placement α := ⟨0, 0, 0⟩

instance : Inhabited (Placement α) := ⟨origin⟩

/-- The position alone. -/
def point (p : Placement α) : Point α := ⟨p.x, p.y⟩

/-- Where `inner`, placed in the frame `frame`, lies outside of that frame. -/
def compose (frame inner : Placement α) : Placement α :=
  let d := rotateOffset inner.x inner.y frame.rotation
  ⟨frame.x + d.1, frame.y + d.2, normalizeDegrees (frame.rotation + inner.rotation)⟩

/-- Where `outer` lies as seen from inside the frame `frame`. -/
def localize (frame outer : Placement α) : Placement α :=
  let d := rotateOffset (outer.x - frame.x) (outer.y - frame.y) (-frame.rotation)
  ⟨d.1, d.2, normalizeDegrees (outer.rotation - frame.rotation)⟩

end Placement

/-- The smallest box around `box` once it is turned and moved to `placement`. -/
def placeBox (box : Rect α) (placement : Placement α) : Rect α :=
  let corner (x y : α) : Rect α :=
    let d := rotateOffset x y placement.rotation
    ⟨placement.x + d.1, placement.y + d.2, 0, 0⟩
  (((corner box.x box.y).union (corner box.right box.y)).union
    (corner box.x box.bottom)).union (corner box.right box.bottom)

end Schematic
