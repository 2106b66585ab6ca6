import Schematic.Proofs.Geometry.Turns

/-!
# Frames within frames

A placement that is turned by whole quarter turns is a motion of the plane, and a
motion fixes it up to whole turns.  So frames in frames may be resolved from within or
from without, and what is brought into a frame comes out of it as it was.  The angles
may be negative or beyond a whole turn; whatever is computed from them is turned by less
than a whole turn.

## Main definitions

* `Placement.normalized` — a placement with its angle brought below a whole turn.
* `Placement.FrameLaws` — what holds of frames and of what is placed in them.

## Main statements

* `Placement.compose_assoc` — a frame in a frame in a frame.
* `Placement.origin_compose`, `Placement.compose_origin_eq` — the sheet as a frame, and
  a frame as a placement.
* `Placement.localize_compose_eq`, `Placement.compose_localize_eq` — into a frame and out
  of it, for any quarter turns.
* `Placement.exists_compose_eq` — a frame is moved to any other one by some motion.
* `Placement.frameLaws_of_square` — the laws of frames hold of all quarter turns.
-/

namespace Schematic

open scoped Scalar

variable {α : Type} [Scalar α]

/-- A placement with its angle brought below a whole turn. -/
def Placement.normalized (p : Placement α) : Placement α :=
  { p with rotation := normalizeDegrees p.rotation }

namespace Placement

variable [ExactScalar α] {f g p q : Placement α}

theorem alike_normalized (hp : p.Square) : p.normalized.Alike p :=
  ⟨rfl, rfl, sameTurn_normalizeDegrees hp⟩

theorem normal_normalized (hp : p.Square) : p.normalized.Normal :=
  isFirstTurn_normalizeDegrees hp

/-- A normal placement is the normalized form of each placement that is the same motion. -/
theorem eq_normalized_of_move (hp : p.Normal) (hq : q.Square) (h : ∀ z, p.move z = q.move z) :
    p = q.normalized := by
  apply eq_of_move hp (normal_normalized hq)
  intro z
  rw [h, (alike_normalized hq).move_eq hq]

/-- A frame in a frame in a frame. -/
theorem compose_assoc (hf : f.Square) (hg : g.Square) (hp : p.Square) :
    (f.compose g).compose p = f.compose (g.compose p) := by
  apply eq_of_move (normal_compose (hf.compose hg) hp) (normal_compose hf (hg.compose hp))
  intro z
  rw [move_compose (hf.compose hg) hp, move_compose hf hg, move_compose hf (hg.compose hp),
    move_compose hg hp]

/-- What is placed on the sheet itself lies where it is placed. -/
theorem origin_compose (hp : p.Square) : origin.compose p = p.normalized := by
  apply eq_normalized_of_move (normal_compose square_origin hp) hp
  intro z
  rw [move_compose square_origin hp, move_origin]

/-- What is placed at the origin of a frame lies where the frame does. -/
theorem compose_origin_eq (hf : f.Square) : f.compose origin = f.normalized := by
  apply eq_normalized_of_move (normal_compose hf square_origin) hf
  intro z
  rw [move_compose hf square_origin, move_origin]

/-- What is brought into a frame and out of it again is where it was. -/
theorem compose_localize_eq (hf : f.Square) (hg : g.Square) :
    f.compose (f.localize g) = g.normalized :=
  eq_normalized_of_move (normal_compose hf (hf.localize hg)) hg (move_compose_localize hf hg)

/-- What is taken out of a frame and brought into it again is placed there as it was. -/
theorem localize_compose_eq (hf : f.Square) (hg : g.Square) :
    f.localize (f.compose g) = g.normalized := by
  rw [← (alike_normalized hg).compose_eq hf hg]
  exact localize_compose hf (normal_normalized hg)

/-- A frame can be moved to any other one. -/
theorem exists_compose_eq (hf : f.Square) (hg : g.Normal) :
    ∃ t : Placement α, t.Normal ∧ t.compose f = g := by
  -- back to the sheet, and then into the other frame
  have hback : (f.localize origin).Square := hf.localize square_origin
  refine ⟨g.compose (f.localize origin), normal_compose hg.square hback, ?_⟩
  have hcancel : (f.localize origin).compose f = origin := by
    apply eq_of_move (normal_compose hback hf) normal_origin
    intro z
    apply f.move_injective
    rw [← move_compose hf (hback.compose hf), ← compose_assoc hf hback hf,
      compose_localize hf normal_origin, move_compose square_origin hf, move_origin, move_origin]
  rw [compose_assoc hg.square hback hf, hcancel, compose_origin hg]

/-! ### Rational angles -/

/-- A rational angle is a number of quarter turns exactly when a quarter turn divides it. -/
theorem isQuarter_iff_den_eq_one (deg : ℚ) : IsQuarter deg ↔ (deg / 90).den = 1 := by
  constructor
  · rintro ⟨k, hk⟩
    have hreal : (deg : ℝ) = 90 * (k : ℝ) := hk
    have hdeg : deg = 90 * (k : ℚ) := by exact_mod_cast hreal
    rw [hdeg, mul_div_cancel_left₀ _ (by norm_num), Rat.den_intCast]
  · intro hden
    have hwhole : ((deg / 90).num : ℚ) = deg / 90 := (Rat.den_eq_one_iff _).1 hden
    have hdeg : deg = 90 * ((deg / 90).num : ℚ) := by rw [hwhole, mul_div_cancel₀ _ (by norm_num)]
    refine ⟨(deg / 90).num, ?_⟩
    change (deg : ℝ) = 90 * ((deg / 90).num : ℝ)
    exact_mod_cast congrArg (Rat.cast : ℚ → ℝ) hdeg

instance (p : Placement ℚ) : Decidable p.Square :=
  decidable_of_iff _ (isQuarter_iff_den_eq_one p.rotation).symm

/-! ### The laws of frames -/

/-- What holds of frames and of what is placed in them. -/
structure FrameLaws (f g p : Placement α) : Prop where
  /-- What is placed in a frame is moved by both placements, one after the other. -/
  move : ∀ z, (f.compose g).move z = f.move (g.move z)
  /-- Frames in frames may be resolved from within or from without. -/
  assoc : (f.compose g).compose p = f.compose (g.compose p)
  /-- The sheet is a frame that changes nothing. -/
  sheet : origin.compose f = f.normalized
  /-- The origin of a frame lies where the frame does. -/
  corner : f.compose origin = f.normalized
  /-- What is taken out of a frame and brought into it again is placed as it was. -/
  inward : f.localize (f.compose g) = g.normalized
  /-- What is brought into a frame and taken out of it again is where it was. -/
  outward : f.compose (f.localize g) = g.normalized
  /-- What comes out of a frame is turned by less than a whole turn. -/
  normal_compose : (f.compose g).Normal
  /-- So is what is brought into one. -/
  normal_localize : (f.localize g).Normal
  /-- So is what is normalized. -/
  normal_normalized : f.normalized.Normal

/-- The laws hold of all quarter turns, negative ones and those beyond a whole turn too. -/
theorem frameLaws_of_square (hf : f.Square) (hg : g.Square) (hp : p.Square) :
    FrameLaws f g p where
  move := move_compose hf hg
  assoc := compose_assoc hf hg hp
  sheet := origin_compose hf
  corner := compose_origin_eq hf
  inward := localize_compose_eq hf hg
  outward := compose_localize_eq hf hg
  normal_compose := Placement.normal_compose hf hg
  normal_localize := Placement.normal_localize hf hg
  normal_normalized := Placement.normal_normalized hf

/-- A frame that is turned back. -/
def turnedBack : Placement ℚ := ⟨100, 50, -90⟩

/-- A frame that is turned by more than a whole turn. -/
def turnedOver : Placement ℚ := ⟨10, 3, 450⟩

/-- A placement that is turned several times. -/
def turnedOften : Placement ℚ := ⟨5, -2, 1170⟩

/-- The first two turns cancel out, and what is left of the third is a quarter turn. -/
theorem frameLaws_turnedBack :
    turnedBack.Square ∧ turnedOver.Square ∧ turnedOften.Square ∧
      FrameLaws turnedBack turnedOver turnedOften ∧
      (turnedBack.compose turnedOver == ⟨97, 60, 0⟩) = true ∧
      ((turnedBack.compose turnedOver).compose turnedOften == ⟨102, 58, 90⟩) = true := by
  have hback : turnedBack.Square := by decide +kernel
  have hover : turnedOver.Square := by decide +kernel
  have hoften : turnedOften.Square := by decide +kernel
  exact ⟨hback, hover, hoften, frameLaws_of_square hback hover hoften, by decide +kernel,
    by decide +kernel⟩

end Placement

end Schematic
