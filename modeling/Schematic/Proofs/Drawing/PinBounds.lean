import Schematic.Drawing.Terminal
import Schematic.Proofs.Geometry.Boxes
import Schematic.Proofs.Geometry.Composition

/-!
# Pins and the boxes of their symbols

The box of a symbol grows pin by pin, and it is placed by its four corners; a pin is placed
by itself.  Both are placed by one motion, so that no pin of a placed symbol is outside of its
box, whatever the body is and however the symbol is turned.

## Main definitions

* `Encloses` — there is a box, and it has a point.
* `Placement.BoxLaws` — what boxes keep when they are placed.

## Main statements

* `Symbol.mem_region_localBounds` — the box of a symbol has the connection points of its pins.
* `SymbolPin.complex_place` — a pin is moved like all else that is placed with it.
* `Placement.boxLaws_of_square` — the laws of boxes hold of all quarter turns.
-/

namespace Schematic

open ExactScalar
open scoped Scalar

variable {α : Type} [Scalar α] [ExactScalar α]

/-! ### The box of a symbol -/

theorem Rect.mem_region_ofPoint (p : Point α) : p.complex ∈ (ofPoint p).region := by
  simp [mem_region, ofPoint, Point.complex, value_right, value_bottom]

/-- A box with a point in it has no negative size. -/
theorem Rect.proper_of_mem {r : Rect α} {z : ℂ} (h : z ∈ r.region) : r.Proper := by
  rw [mem_region, value_right, value_bottom] at h
  constructor <;> linarith [h.1.1, h.1.2, h.2.1, h.2.2]

/-- There is a box, and it has a point. -/
def Encloses (bounds : Option (Rect α)) (z : ℂ) : Prop := ∃ r, bounds = some r ∧ z ∈ r.region

section Encloses

variable {bounds : Option (Rect α)} {pins : List (SymbolPin α)} {z : ℂ}

/-- A pin is put into the box, also into one around a body of a negative size, which has had
no points before. -/
theorem encloses_extendBounds (bounds : Option (Rect α)) (pin : SymbolPin α) :
    Encloses (Symbol.extendBounds bounds pin) pin.sheetOffset.complex := by
  have htip := Rect.mem_region_ofPoint pin.sheetOffset
  cases bounds with
  | none => exact ⟨_, rfl, htip⟩
  | some b => exact ⟨_, rfl, b.region_subset_union_right _ htip⟩

/-- What is in the box stays in it when another pin is put into it. -/
theorem Encloses.extendBounds (h : Encloses bounds z) (pin : SymbolPin α) :
    Encloses (Symbol.extendBounds bounds pin) z := by
  obtain ⟨r, rfl, hz⟩ := h
  exact ⟨_, rfl, r.region_subset_union_left _ hz⟩

theorem Encloses.foldl_extendBounds (h : Encloses bounds z) (pins : List (SymbolPin α)) :
    Encloses (pins.foldl Symbol.extendBounds bounds) z := by
  induction pins generalizing bounds with
  | nil => exact h
  | cons pin pins ih => exact ih (h.extendBounds pin)

/-- Once all the pins are in the box, each of them is. -/
theorem encloses_foldl_extendBounds {pin : SymbolPin α} (hpin : pin ∈ pins)
    (bounds : Option (Rect α)) :
    Encloses (pins.foldl Symbol.extendBounds bounds) pin.sheetOffset.complex := by
  induction pins generalizing bounds with
  | nil => cases hpin
  | cons first pins ih =>
    rcases List.mem_cons.1 hpin with rfl | hpin
    · exact (encloses_extendBounds bounds pin).foldl_extendBounds pins
    · exact ih hpin _

end Encloses

/-- The box of a symbol has the connection points of its pins. -/
theorem Symbol.mem_region_localBounds {s : Symbol α} {pin : SymbolPin α} (hpin : pin ∈ s.pins) :
    pin.sheetOffset.complex ∈ s.localBounds.region := by
  obtain ⟨r, hr, hmem⟩ := encloses_foldl_extendBounds hpin s.body
  rwa [localBounds, hr, Option.getD_some]

/-! ### Placed pins and placed boxes -/

/-- A pin is moved like all else that is placed with it. -/
theorem SymbolPin.complex_place (pin : SymbolPin α) {p : Placement α} (hp : p.Square) :
    (pin.place p).1.complex = p.move pin.sheetOffset.complex := by
  obtain ⟨k, hk⟩ := hp
  have hoffset := complex_rotateOffset hk pin.sheetOffset.x pin.sheetOffset.y
  rw [Placement.move, turn_of_value hk]
  refine Eq.trans ?_ (congrArg (p.point.complex + ·) hoffset)
  simp [place, Placement.point, Point.complex, Complex.ext_iff]

/-- The box of a placed symbol has its placed pins. -/
theorem SymbolSource.contains_boundingBox {symbols : SymbolSource α} {id : String} {s : Symbol α}
    (hs : symbols id = some s) {pin : SymbolPin α} (hpin : pin ∈ s.pins) {p : Placement α}
    (hp : p.Square) : (symbols.boundingBox id p).contains (pin.place p).1 = true := by
  have hmem := Symbol.mem_region_localBounds hpin
  have hlocal : symbols.localBounds id = s.localBounds := by
    rw [localBounds, hs]
    rfl
  rw [Rect.contains_iff, boundingBox, hlocal, Rect.region_placeBox (Rect.proper_of_mem hmem) hp,
    pin.complex_place hp]
  exact Set.mem_image_of_mem p.move hmem

namespace Placement

/-- What boxes keep when they are placed. -/
structure BoxLaws (p : Placement α) : Prop where
  /-- The pins of a symbol are in its box, or on the edge of it. -/
  pin : ∀ (symbols : SymbolSource α) id s, symbols id = some s → ∀ pin ∈ s.pins,
    (symbols.boundingBox id p).contains (pin.place p).1 = true
  /-- The smallest box around two boxes is placed where the smallest box around the placed ones
  is. -/
  union : ∀ r s : Rect α, r.Proper → s.Proper →
    placeBox (r.union s) p = (placeBox r p).union (placeBox s p)
  /-- A placed box lies in another one exactly when it did before they were placed. -/
  subset_iff : ∀ r s : Rect α, r.Proper → s.Proper →
    ((placeBox r p).region ⊆ (placeBox s p).region ↔ r.region ⊆ s.region)

/-- The laws hold of all quarter turns, negative ones and those beyond a whole turn too. -/
theorem boxLaws_of_square {p : Placement α} (hp : p.Square) : p.BoxLaws where
  pin _ _ _ hs _ hpin := SymbolSource.contains_boundingBox hs hpin hp
  union _ _ hr hs := Rect.placeBox_union hr hs hp
  subset_iff _ _ hr hs := Rect.region_placeBox_subset_iff hr hs hp

/-- The first pin of a symbol. -/
def outlyingPin : SymbolPin ℚ := ⟨"1", "IN", -10, 3, 0, 2⟩

/-- A library with one symbol, whose body is given from right to left. -/
def leaning : SymbolSource ℚ := fun id =>
  if id = "My:Leaning" then
    some { id, pins := [outlyingPin, ⟨"2", "OUT", 4, -7, 90, 2⟩], body := some ⟨3, 4, -5, 2⟩,
           power := false }
  else none

/-- A placement that is turned back by more than a whole turn. -/
def turnedAway : Placement ℚ := ⟨100, 50, -450⟩

/-- The pin is placed at a corner of the box of the symbol; a box is put together with one of no
width, and a smaller box stays in it. -/
theorem boxLaws_turnedAway :
    turnedAway.Square ∧ turnedAway.BoxLaws ∧
      (leaning.boundingBox "My:Leaning" turnedAway == ⟨93, 40, 10, 14⟩) = true ∧
      ((outlyingPin.place turnedAway).1 == ⟨103, 40⟩) = true ∧
      (leaning.boundingBox "My:Leaning" turnedAway).contains (outlyingPin.place turnedAway).1 =
        true ∧
      placeBox (Rect.union ⟨0, 0, 8, 2⟩ ⟨-3, 5, 0, 4⟩) turnedAway =
        (placeBox ⟨0, 0, 8, 2⟩ turnedAway).union (placeBox ⟨-3, 5, 0, 4⟩ turnedAway) ∧
      (placeBox ⟨1, 1, 2, 1⟩ turnedAway).region ⊆ (placeBox ⟨0, 0, 8, 2⟩ turnedAway).region := by
  have hsquare : turnedAway.Square := by decide +kernel
  have hlaws := boxLaws_of_square hsquare
  have hwide : (⟨0, 0, 8, 2⟩ : Rect ℚ).Proper := by decide
  have hsmall : (⟨1, 1, 2, 1⟩ : Rect ℚ).Proper := by decide
  have hinside : (⟨1, 1, 2, 1⟩ : Rect ℚ).region ⊆ (⟨0, 0, 8, 2⟩ : Rect ℚ).region := by
    rw [Rect.region_subset_iff hsmall]
    simp only [← le_iff]
    decide +kernel
  refine ⟨hsquare, hlaws, by decide +kernel, by decide +kernel, ?_, ?_, ?_⟩
  · exact hlaws.pin leaning "My:Leaning" _ rfl outlyingPin List.mem_cons_self
  · exact hlaws.union _ _ hwide (by decide)
  · exact (hlaws.subset_iff _ _ hsmall hwide).2 hinside

end Placement

end Schematic
