import Schematic.Config
import Schematic.Geometry.Basic

/-!
# Arranging boxes by forces

Boxes are bodies that move under forces.  Every two bodies repel each other, the
more the closer they are for their size; connected bodies attract each other
once they are further apart than needed; and everything is pulled weakly toward
the middle.  Speeds are damped and limited.  The bodies start on a circle, so
the outcome is always the same.

## Main definitions

* `Body` — a box in motion.
* `Body.pull` — the force that one body exerts on another.
* `forceStep` — one step of the motion.
* `forceLayout` — the origins of the boxes after all steps.
-/

namespace Schematic

open Scalar

/-- A box in motion. -/
structure Body (α : Type) where
  /-- The middle of the box. -/
  center : Point α
  /-- The way it moves in one step. -/
  velocity : Point α
  /-- Half of its diagonal. -/
  reach : α
  /-- Whether it stays where it is. -/
  fixed : Bool
  deriving Repr

variable {α : Type} [Scalar α]

/-- The angle of a whole turn. -/
@[inline] def fullTurn : α := 2 * Scalar.pi

/-! ### The start -/

/-- The radius of the circle on which the bodies start: its circumference has
room for all boxes. -/
def startRadius (spacing : α) (boxes : List (Rect α)) : α :=
  boxes.foldl (fun sum b => sum + (Scalar.max b.w b.h + spacing)) 0 / fullTurn

/-- The place of the `i`th of `n` bodies on a circle. -/
def onCircle (radius : α) (n i : Nat) : Point α :=
  let angle := fullTurn * Scalar.ofInt i / Scalar.ofInt n
  ⟨radius * Scalar.cos angle, radius * Scalar.sin angle⟩

/-- A box that may be moved or not, with its present origin. -/
structure Placeable (α : Type) where
  /-- The box, as seen from its origin. -/
  box : Rect α
  /-- The present origin. -/
  origin : Point α
  /-- Whether it stays there. -/
  fixed : Bool
  deriving Repr

/-- The body of the `i`th of `n` boxes at the start. -/
def Body.start (radius : α) (n i : Nat) (p : Placeable α) : Body α :=
  { center :=
      if p.fixed then p.origin.offset p.box.center.x p.box.center.y else onCircle radius n i
    velocity := .origin
    reach := Scalar.hypot p.box.w p.box.h / 2
    fixed := p.fixed }

/-! ### The motion -/

/-- The force of a body `b` on a body `a` with the given connection, positive
toward `b`. -/
@[specialize] def Body.pull (config : PlacementConfig α) (weight : α) (a b : Body α) : Point α :=
  let dx := b.center.x - a.center.x
  let dy := b.center.y - a.center.y
  let distance := Scalar.max (Scalar.hypot dx dy) 1e-3
  let ideal := a.reach + b.reach + config.spacing
  let crowding := ideal / distance
  let repulsion := -config.repulsion * (crowding * crowding) / Scalar.max ideal 1
  let force :=
    if 0 < weight && ideal < distance then
      repulsion + config.attraction * weight * (distance - ideal)
    else repulsion
  ⟨force * (dx / distance), force * (dy / distance)⟩

/-- The connection of two bodies, which is noted under the lower number. -/
def connection (weights : Array (Array α)) (i j : Nat) : α :=
  ((weights[min i j]?).bind fun row => row[max i j]?).getD 0

/-- The sum of the forces of all other bodies on the `i`th one. -/
@[specialize] def netForce (config : PlacementConfig α) (weights : Array (Array α))
    (bodies : Array (Body α)) (i : Nat) (body : Body α) : Point α :=
  (List.range bodies.size).foldl
    (fun sum j =>
      if j = i then sum
      else
        match bodies[j]? with
        | some other =>
            let f := body.pull config (connection weights i j) other
            sum.offset f.x f.y
        | none => sum)
    .origin

/-- A velocity cut to the largest step. -/
@[specialize] def limitSpeed (maxStep : α) (v : Point α) : Point α :=
  let speed := Scalar.hypot v.x v.y
  if maxStep < speed then ⟨v.x * (maxStep / speed), v.y * (maxStep / speed)⟩ else v

/-- Move a body under a force. -/
@[specialize] def Body.move (config : PlacementConfig α) (force : Point α) (b : Body α) : Body α :=
  if b.fixed then b
  else
    let v : Point α :=
      ⟨(b.velocity.x + (force.x - config.gravity * b.center.x)) * config.damping,
       (b.velocity.y + (force.y - config.gravity * b.center.y)) * config.damping⟩
    let v := limitSpeed (Scalar.max config.spacing 1 * 4) v
    { b with velocity := v, center := b.center.offset v.x v.y }

/-- One step of all bodies. -/
@[specialize] def forceStep (config : PlacementConfig α) (weights : Array (Array α))
    (bodies : Array (Body α)) : Array (Body α) :=
  bodies.mapIdx fun i b => b.move config (netForce config weights bodies i b)

/-- The origins of boxes after the motion. -/
@[specialize] def forceLayout (config : PlacementConfig α) (weights : List (List α))
    (boxes : List (Placeable α)) : List (Point α) :=
  let radius := startRadius config.spacing (boxes.map (·.box))
  let rows := (weights.map List.toArray).toArray
  let bodies := (boxes.mapIdx fun i p => Body.start radius boxes.length i p).toArray
  let moved := config.iterations.repeat (forceStep config rows) bodies
  moved.toList.zipWith (fun b p =>
    ⟨b.center.x - p.box.center.x, b.center.y - p.box.center.y⟩) boxes

end Schematic
