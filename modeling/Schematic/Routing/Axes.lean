/-!
# Axes

The axes along which a wire runs through a cell of the routing grid, and the
four directions a wire can take from cell to cell.

## Main definitions

* `Axes` — a set of axes; `Axes.union`, `Axes.isEmpty`.
* `Direction` — up, down, left and right.
-/

namespace Schematic

/-- A set of axes. -/
structure Axes where
  /-- Whether the horizontal axis is one of them. -/
  horizontal : Bool
  /-- Whether the vertical axis is one of them. -/
  vertical : Bool
  deriving DecidableEq, Repr, Inhabited

namespace Axes

/-- No axis. -/
def none : Axes := ⟨false, false⟩

/-- The horizontal axis alone. -/
def alongX : Axes := ⟨true, false⟩

/-- The vertical axis alone. -/
def alongY : Axes := ⟨false, true⟩

/-- Both axes. -/
def both : Axes := ⟨true, true⟩

/-- The axes of either set. -/
def union (a b : Axes) : Axes := ⟨a.horizontal || b.horizontal, a.vertical || b.vertical⟩

/-- Whether there is no axis. -/
def isEmpty (a : Axes) : Bool := !a.horizontal && !a.vertical

@[simp] theorem none_union (a : Axes) : none.union a = a := by cases a; simp [none, union]

theorem union_comm (a b : Axes) : a.union b = b.union a := by
  simp [union, Bool.or_comm]

theorem union_assoc (a b c : Axes) : (a.union b).union c = a.union (b.union c) := by
  simp [union, Bool.or_assoc]

theorem union_self (a : Axes) : a.union a = a := by simp [union]

end Axes

/-- The way from a cell to a neighbouring one. -/
inductive Direction where
  /-- Toward smaller `y`. -/
  | up
  /-- Toward larger `y`. -/
  | down
  /-- Toward smaller `x`. -/
  | left
  /-- Toward larger `x`. -/
  | right
  deriving DecidableEq, Repr, Inhabited

namespace Direction

/-- All directions, in the order they are tried. -/
def all : List Direction := [.up, .down, .left, .right]

/-- The place of a direction in `all`. -/
def index : Direction → Nat
  | .up => 0
  | .down => 1
  | .left => 2
  | .right => 3

/-- Whether a direction runs along one of some axes. -/
def runsAlong : Direction → Axes → Bool
  | .up, a => a.vertical
  | .down, a => a.vertical
  | .left, a => a.horizontal
  | .right, a => a.horizontal

theorem index_lt (d : Direction) : d.index < 4 := by cases d <;> decide

theorem mem_all (d : Direction) : d ∈ all := by cases d <;> decide

end Direction

end Schematic
