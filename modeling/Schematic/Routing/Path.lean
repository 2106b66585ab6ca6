import Schematic.Geometry.Basic

/-!
# Paths

A path is a list of points joined by straight lines.  Points that lie on the
line between their neighbours are left out of it.

## Main definitions

* `compressPath` — a path without repeated points and points on a straight run.
* `segments` — the straight lines of a path.
-/

namespace Schematic

open Scalar

variable {α : Type} [Scalar α]

/-- Whether three points lie on a horizontal or a vertical line. -/
def straight (a b c : Point α) : Bool :=
  (Scalar.abs (a.x - b.x) ≤ 1e-9 && Scalar.abs (c.x - b.x) ≤ 1e-9) ||
    (Scalar.abs (a.y - b.y) ≤ 1e-9 && Scalar.abs (c.y - b.y) ≤ 1e-9)

/-- The points of a path to keep after `previous`, which was kept. -/
def compressAfter (previous : Point α) : List (Point α) → List (Point α)
  | [] => []
  | [last] => if last.near previous 1e-9 then [] else [last]
  | current :: next :: rest =>
      if current.near previous 1e-9 || straight previous current next then
        compressAfter previous (next :: rest)
      else current :: compressAfter current (next :: rest)

/-- Leave out repeated points and points on a straight run between their
neighbours.  A path of one or two points stays as it is. -/
def compressPath : List (Point α) → List (Point α)
  | first :: second :: third :: rest => first :: compressAfter first (second :: third :: rest)
  | points => points

/-- The straight lines of a path, each by its two ends. -/
def segments {β : Type} (path : List β) : List (β × β) := path.zip (path.drop 1)

end Schematic
