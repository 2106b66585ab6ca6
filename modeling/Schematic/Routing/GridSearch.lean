import Schematic.Routing.Axes
import Schematic.Routing.Queue

/-!
# Cheapest walks on a grid

A walk goes from cell to cell in the four directions.  A step costs one, and a
change of direction costs a penalty on top.  Some cells are blocked, and cells
taken by a wire may only be crossed: a walk neither enters them along the wire
nor turns on them.

The search goes over states, a cell together with the direction in which it was
entered, and always continues from the state with the least estimate: the cost
so far and the distance left.  Costs are cut off at `maxCost`.

## Main definitions

* `Grid`, `Walk` — the grid and what is asked for.
* `Search`, `Search.improve` — the states reached so far.
* `Grid.run` — the search, which ends because every step lowers a cost or takes
  a member off the queue.
* `Grid.search?` — the cells of a cheapest walk.

## Main statements

* `Search.potential_expand_le` — what the search may still do never grows.
-/

namespace Schematic

/-- The region of cells that a walk may go through. -/
structure Grid where
  /-- The number of columns. -/
  cols : Nat
  /-- The number of rows. -/
  rows : Nat
  /-- The blocked cells, row by row. -/
  blocked : Array Bool
  /-- The axes along which wires have taken the cell in a column and row. -/
  taken : Int → Int → Axes

/-- What is asked of a search.  A walk may start next to the region, and goes on
inside it. -/
structure Walk where
  /-- The column and row of the first cell. -/
  start : Int × Int
  /-- The column and row of the last cell. -/
  finish : Int × Int
  /-- The extra cost of a change of direction. -/
  turnPenalty : Nat

/-- A cell and the direction in which it was entered. -/
structure GridState where
  /-- The column. -/
  x : Int
  /-- The row. -/
  y : Int
  /-- The direction of the step into the cell. -/
  heading : Direction
  deriving DecidableEq, Repr, Inhabited

/-- A state waiting to be continued from. -/
structure QueueEntry where
  /-- The cost of reaching it and going straight to the end. -/
  estimate : Nat
  /-- The cost of reaching it. -/
  cost : Nat
  /-- The state. -/
  state : GridState
  deriving Repr, Inhabited

/-- The cost that stands for "not reached" and that no walk exceeds. -/
def maxCost : Nat := 4294967295

/-- The sum of two costs, cut off. -/
def addCost (a b : Nat) : Nat := min (a + b) maxCost

/-- The order in which states are continued from: least estimate first, then
least cost, then the lowest row, the last column and the last direction. -/
def QueueEntry.before (a b : QueueEntry) : Bool :=
  if a.estimate ≠ b.estimate then a.estimate < b.estimate
  else if a.cost ≠ b.cost then a.cost < b.cost
  else if a.state.y ≠ b.state.y then b.state.y < a.state.y
  else if a.state.x ≠ b.state.x then b.state.x < a.state.x
  else b.state.heading.index < a.state.heading.index

/-- The states reached so far. -/
structure Search where
  /-- The least known cost of each state. -/
  best : Array Nat
  /-- The state before each state on the way of that cost. -/
  previous : Array (Option GridState)
  /-- The states to continue from. -/
  queue : Queue QueueEntry

namespace Search

/-- Reach a state, if that is cheaper than every way known so far. -/
def improve (s : Search) (index : Nat) (source : GridState) (entry : QueueEntry) : Search :=
  if h : index < s.best.size then
    if entry.cost < s.best[index] then
      { best := s.best.set index entry.cost
        previous := s.previous.setIfInBounds index (some source)
        queue := s.queue.insert QueueEntry.before entry }
    else s
  else s

/-- A bound on what the search can still do: each cost can be lowered a limited
number of times, and each waiting state is taken once. -/
def potential (s : Search) : Nat := 2 * s.best.toList.foldr (· + ·) 0 + s.queue.size

theorem foldr_add_set (l : List Nat) (i v : Nat) (h : i < l.length) :
    (l.set i v).foldr (· + ·) 0 + l[i] = l.foldr (· + ·) 0 + v := by
  induction l generalizing i with
  | nil => simp at h
  | cons a l ih =>
    cases i with
    | zero => simp only [List.set_cons_zero, List.foldr_cons, List.getElem_cons_zero]; omega
    | succ i =>
      have := ih i (by simpa using h)
      simp only [List.set_cons_succ, List.foldr_cons, List.getElem_cons_succ]; omega

theorem potential_improve_le (s : Search) (index : Nat) (source : GridState) (entry : QueueEntry) :
    (s.improve index source entry).potential ≤ s.potential := by
  unfold improve
  split
  · next h =>
    split
    · next hlt =>
      have hsum := foldr_add_set s.best.toList index entry.cost (by simpa using h)
      simp only [potential, Array.toList_set, Queue.size_insert]
      simp only [Array.getElem_toList] at hsum
      omega
    · exact Nat.le_refl _
  · exact Nat.le_refl _

end Search

namespace Grid

/-- The number of a cell, row by row. -/
def cellIndex (g : Grid) (x y : Int) : Nat := (y * g.cols + x).toNat

/-- The number of a state. -/
def stateIndex (g : Grid) (s : GridState) : Nat := g.cellIndex s.x s.y * 4 + s.heading.index

/-- Whether a column and row belong to the region. -/
def contains (g : Grid) (x y : Int) : Bool := 0 ≤ x && 0 ≤ y && x < g.cols && y < g.rows

/-- The neighbouring cell in a direction, if it belongs to the region. -/
def neighbour? (g : Grid) (x y : Int) (d : Direction) : Option (Int × Int) :=
  let (x, y) := match d with
    | .up => (x, y - 1)
    | .down => (x, y + 1)
    | .left => (x - 1, y)
    | .right => (x + 1, y)
  if g.contains x y then some (x, y) else none

/-- Whether a cell is blocked. -/
def isBlocked (g : Grid) (x y : Int) : Bool := g.blocked[g.cellIndex x y]?.getD false

/-- Whether a walk has to go straight on from a state, because it crosses a wire
there. -/
def isCrossing (g : Grid) (w : Walk) (s : GridState) : Bool :=
  (s.x, s.y) ≠ w.start && !(g.taken s.x s.y).isEmpty

/-- Whether a cell may be entered in a direction. -/
def mayEnter (g : Grid) (w : Walk) (x y : Int) (d : Direction) : Bool :=
  !g.isBlocked x y && ((x, y) == w.finish || !d.runsAlong (g.taken x y))

/-- The distance from a cell to the last one, counted in 32 bits. -/
def distanceLeft (w : Walk) (x y : Int) : Nat :=
  ((x - w.finish.1).natAbs + (y - w.finish.2).natAbs) % 4294967296

/-- The cost of one step in a direction after a state. -/
def stepCost (w : Walk) (s : GridState) (d : Direction) (cost : Nat) : Nat :=
  let next := addCost cost 1
  if s.heading = d then next else addCost next w.turnPenalty

/-- Continue from a state in one direction. -/
def relax (g : Grid) (w : Walk) (e : QueueEntry) (s : Search) (d : Direction) : Search :=
  if g.isCrossing w e.state && e.state.heading ≠ d then s
  else
    match g.neighbour? e.state.x e.state.y d with
    | none => s
    | some (x, y) =>
        if g.mayEnter w x y d then
          let next : GridState := ⟨x, y, d⟩
          let cost := stepCost w e.state d e.cost
          s.improve (g.stateIndex next) e.state
            { estimate := addCost cost (distanceLeft w x y), cost, state := next }
        else s

/-- Continue from a state in every direction. -/
def expand (g : Grid) (w : Walk) (e : QueueEntry) (s : Search) : Search :=
  Direction.all.foldl (g.relax w e) s

theorem potential_relax_le (g : Grid) (w : Walk) (e : QueueEntry) (s : Search) (d : Direction) :
    (g.relax w e s d).potential ≤ s.potential := by
  unfold relax
  split
  · exact Nat.le_refl _
  · split
    · exact Nat.le_refl _
    · split
      · exact s.potential_improve_le ..
      · exact Nat.le_refl _

/-- Continuing from a state does not raise what the search may still do. -/
theorem potential_expand_le (g : Grid) (w : Walk) (e : QueueEntry) (s : Search) :
    (g.expand w e s).potential ≤ s.potential := by
  unfold expand
  generalize Direction.all = ds
  induction ds generalizing s with
  | nil => exact Nat.le_refl _
  | cons d ds ih => exact Nat.le_trans (ih _) (g.potential_relax_le w e s d)

/-- Whether a waiting state was reached more cheaply after it began to wait. -/
def isOutdated (g : Grid) (s : Search) (e : QueueEntry) : Bool :=
  s.best[g.stateIndex e.state]?.getD 0 ≠ e.cost

/-- Search until the last cell is reached, or nothing is left to continue
from. -/
def run (g : Grid) (w : Walk) (s : Search) : Option (GridState × Search) :=
  match _h : s.queue.pop? QueueEntry.before with
  | none => none
  | some (e, rest) =>
      let s' : Search := { s with queue := rest }
      if g.isOutdated s' e then g.run w s'
      else if (e.state.x, e.state.y) = w.finish then some (e.state, s')
      else g.run w (g.expand w e s')
termination_by s.potential
decreasing_by
  · have := Queue.size_of_pop? QueueEntry.before _h
    simp only [Search.potential]; simp only at this; omega
  · have := Queue.size_of_pop? QueueEntry.before _h
    have hle := g.potential_expand_le w e { s with queue := rest }
    simp only [Search.potential] at hle ⊢; simp only at this; omega

/-- The state of a search in which a state costs nothing. -/
def seed (g : Grid) (s : Search) (state : GridState) : Search :=
  { s with
    best := s.best.setIfInBounds (g.stateIndex state) 0
    queue := s.queue.insert QueueEntry.before { estimate := 0, cost := 0, state } }

/-- The beginning of a search: only the first cell is reached, in whatever
direction. -/
def begin (g : Grid) (w : Walk) : Search :=
  let states := g.cols * g.rows * 4
  Direction.all.foldl (fun s d => g.seed s ⟨w.start.1, w.start.2, d⟩)
    { best := Array.replicate states maxCost, previous := Array.replicate states none, queue := ∅ }

/-- The cells on the way to a state, the last one first. -/
def trail (g : Grid) (s : Search) : Nat → GridState → List (Int × Int)
  | 0, state => [(state.x, state.y)]
  | fuel + 1, state =>
      (state.x, state.y) ::
        match s.previous[g.stateIndex state]?.join with
        | some before => g.trail s fuel before
        | none => []

/-- The cells of a cheapest walk, the first one first; none if there is no walk
that is cheaper than `maxCost`. -/
def search? (g : Grid) (w : Walk) : Option (List (Int × Int)) :=
  (g.run w (g.begin w)).map fun r => (g.trail r.2 r.2.best.size r.1).reverse

end Grid

end Schematic
