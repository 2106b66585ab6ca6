import Schematic.Geometry.Basic
import Schematic.Pairs

/-!
# Spreading boxes that overlap

Boxes whose positions were chosen by the author may overlap.  They are pulled
apart by scaling all their origins by one factor, which keeps their arrangement.
The factor is a little larger than needed, and found in a few rounds, since
scaling one pair apart can bring others to overlap.

## Main definitions

* `pairFactor` — the factor that pulls two boxes apart.
* `separateNumbered`, `separate` — the factor for some boxes with the scaled
  origins.
* `separateInPlace` — the factor with the origins afterwards.
* `SeparationFailure` — why there is none.
-/

namespace Schematic

open Scalar

/-- Why boxes cannot be pulled apart. -/
inductive SeparationFailure (α : Type) where
  /-- The origins of two overlapping boxes agree. -/
  | coincident (first second : Nat)
  /-- The factor needed is larger than allowed. -/
  | tooLarge (scale : α)
  deriving Repr

variable {α : Type} [Scalar α]

/-- The factor that stands for "no factor is large enough". -/
def unbounded : α := Scalar.ofNumber (.infinite false)

/-- The most rounds of scaling. -/
def separationRounds : Nat := 16

/-- The surplus on the factor needed, so that boxes end up apart rather than
edge to edge. -/
def separationMargin : α := 1.001

/-- The factor that spreads a distance to what is needed. -/
def axisFactor (needed distance : α) : α :=
  if 1e-9 < distance then needed / distance else unbounded

/-- The factor that pulls two overlapping boxes apart along the axis where less
is needed. -/
def pairFactor (a b : Rect α) : α :=
  Scalar.min
    (axisFactor ((a.w + b.w) / 2) (Scalar.abs (a.center.x - b.center.x)))
    (axisFactor ((a.h + b.h) / 2) (Scalar.abs (a.center.y - b.center.y)))

/-- A box with its number and its origin; the box is given as seen from the
origin. -/
structure OriginBox (α : Type) where
  /-- The number. -/
  index : Nat
  /-- The origin. -/
  origin : Point α
  /-- The box around the origin. -/
  shape : Rect α
  deriving Repr

/-- The box on the sheet. -/
def OriginBox.box (b : OriginBox α) : Rect α := b.shape.translate b.origin.x b.origin.y

/-- Numbered boxes around their origins, in order; an origin beyond the last box
has none. -/
def originBoxes (shapes : List (Nat × Rect α)) (origins : List (Point α)) : List (OriginBox α) :=
  shapes.zipWith (fun s origin => ⟨s.1, origin, s.2⟩) origins

/-- The pairs of boxes that overlap, in order. -/
def overlapping (boxes : List (OriginBox α)) : List (OriginBox α × OriginBox α) :=
  (pairs boxes).filter fun p => p.1.box.overlaps p.2.box

/-- Scale the origins until no boxes overlap, for at most `rounds` rounds; they
have been scaled by `total` already. -/
def separateFrom (maxScale : α) (shapes : List (Nat × Rect α)) :
    Nat → α → List (Point α) → Except (SeparationFailure α) (α × List (Point α))
  | 0, total, _ => .error (.tooLarge total)
  | rounds + 1, total, origins =>
      let overlaps := overlapping (originBoxes shapes origins)
      match overlaps.find? fun p => p.1.origin.near p.2.origin 1e-9 with
      | some p => .error (.coincident p.1.index p.2.index)
      | none =>
          let needed := overlaps.foldl (fun m p => Scalar.max m (pairFactor p.1.box p.2.box)) 1
          if needed ≤ 1 then .ok (total, origins)
          else
            let factor := needed * separationMargin
            let total := total * factor
            if maxScale < total then .error (.tooLarge total)
            else
              separateFrom maxScale shapes rounds total <| origins.map fun p =>
                ⟨p.x * factor, p.y * factor⟩

/-- The factor by which origins are scaled until the numbered boxes around them
do not overlap, and the scaled origins.  The factor is one when nothing
overlaps. -/
def separateNumbered (maxScale : α) (shapes : List (Nat × Rect α)) (origins : List (Point α)) :
    Except (SeparationFailure α) (α × List (Point α)) :=
  separateFrom maxScale shapes separationRounds 1 origins

/-- The factor for boxes that are numbered from zero, and the scaled origins. -/
def separate (maxScale : α) (origins : List (Point α)) (boxes : List (Rect α)) :
    Except (SeparationFailure α) (α × List (Point α)) :=
  separateNumbered maxScale (boxes.mapIdx fun i r => (i, r)) origins

/-- Scale origins in place: the factor, and the origins afterwards, which stay as they were when
there is no factor. -/
def separateInPlace (maxScale : α) (origins : List (Point α)) (boxes : List (Rect α)) :
    Except (SeparationFailure α) α × List (Point α) :=
  match separate maxScale origins boxes with
  | .ok (scale, scaled) => (.ok scale, scaled)
  | .error failure => (.error failure, origins)

end Schematic
