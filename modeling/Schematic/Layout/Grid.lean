import Schematic.Geometry.Basic
import Schematic.Number.Rounding

/-!
# Arranging boxes in rows and columns

Boxes are dealt into the cells of a grid that is about as wide as it is high.
Every column is as wide as its widest box and every row as high as its highest,
and each box lies in the middle of its cell.  Boxes that are strongly connected
are dealt one after the other.

## Main definitions

* `gridShape` — the numbers of columns and rows.
* `connectivityOrder` — an order in which neighbours are strongly connected.
* `gridLayout` — the origins of the boxes.
-/

namespace Schematic

open Scalar

/-- As many columns less as can be spared: `n` boxes have to find room in a
square grid. -/
def trimColumns (n : Nat) : Nat → Nat
  | 0 => 0
  | 1 => 1
  | cols + 2 =>
      if n ≤ (cols + 1) * (cols + 1) then trimColumns n (cols + 1) else cols + 2

/-- The numbers of columns and rows of a grid for `n` boxes.  The columns are
found from a square root with 53 significant digits, which may be too large. -/
def gridShape (n : Nat) : Nat × Nat :=
  let cols := trimColumns n (ceilSqrt 53 n)
  (cols, (n + cols - 1) / cols)

variable {α : Type} [Scalar α]

/-! ### The order of the boxes -/

/-- The stronger one of the best candidate so far and a new one, which has to
have a positive weight; the earlier one of equals. -/
def stronger (best : Option (Nat × α)) (candidate : Nat × α) : Option (Nat × α) :=
  if candidate.2 ≤ 0 then best
  else
    match best with
    | none => some candidate
    | some b => if b.2 < candidate.2 then some candidate else some b

/-- The box outside of `visited` with the strongest connection in a row of
weights. -/
def strongest? (visited : List Nat) (row : List α) : Option Nat :=
  let candidates := (row.mapIdx fun i w => (i, w)).filter fun c => !visited.contains c.1
  (candidates.foldl stronger none).map Prod.fst

/-- Go on with `next`, or with the first box that was not visited when there is
no such box or it was; at most `fuel` boxes are visited. -/
def chainFrom (weights : List (List α)) : Nat → List Nat → Option Nat → List Nat
  | 0, _, _ => []
  | fuel + 1, visited, next =>
      let pick := (next.filter fun i => !visited.contains i).orElse fun _ =>
        (List.range weights.length).find? fun i => !visited.contains i
      match pick with
      | none => []
      | some i =>
          let visited := i :: visited
          i :: chainFrom weights fuel visited (strongest? visited (weights[i]?.getD []))

/-- The boxes in the order of a chain: after each box comes the one that is most
strongly connected to it, else the first one that is left. -/
def connectivityOrder (weights : List (List α)) : List Nat :=
  chainFrom weights weights.length [] (some 0)

/-! ### The cells -/

/-- Where consecutive strips of the given sizes begin, with a gap between
them. -/
def stripStarts (gap : α) (start : α) : List α → List α
  | [] => []
  | size :: sizes => start :: stripStarts gap (start + (size + gap)) sizes

/-- The sizes of `count` strips, each as large as the largest of its members;
`slots` holds the strip and the size of every member. -/
def stripSizes (count : Nat) (slots : List (Nat × α)) : List α :=
  (List.range count).map fun strip =>
    slots.foldl (fun m s => if s.1 = strip then Scalar.max m s.2 else m) 0

/-- The strips along one axis: where each begins, and its size. -/
def strips (gap : α) (count : Nat) (slots : List (Nat × α)) : List (α × α) :=
  let sizes := stripSizes count slots
  (stripStarts gap 0 sizes).zip sizes

/-- The middle of a strip. -/
def stripMiddle (strips : List (α × α)) (i : Nat) : α :=
  match strips[i]? with
  | some (start, size) => start + size / 2
  | none => 0

/-- Where the origin of a box comes to lie when its middle is brought to a
point. -/
def centeredOrigin (box : Rect α) (middle : Point α) : Point α :=
  ⟨middle.x - box.center.x, middle.y - box.center.y⟩

/-- The origins of boxes that are dealt into a grid in the given order.  The top
left corner of the grid is at the origin, and a box that is not in the order
stays there. -/
def gridLayout (boxes : List (Rect α)) (order : List Nat) (spacing : α) : List (Point α) :=
  let (cols, rows) := gridShape order.length
  let box (i : Nat) : Rect α := boxes[i]?.getD .zero
  let columns := strips spacing cols (order.mapIdx fun slot i => (slot % cols, (box i).w))
  let lines := strips spacing rows (order.mapIdx fun slot i => (slot / cols, (box i).h))
  let cells := (order.mapIdx fun slot i => (i, slot)).reverse
  boxes.mapIdx fun i b =>
    match cells.lookup i with
    | some slot =>
        centeredOrigin b ⟨stripMiddle columns (slot % cols), stripMiddle lines (slot / cols)⟩
    | none => .origin

end Schematic
