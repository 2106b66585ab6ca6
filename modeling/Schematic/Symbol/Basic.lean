import Schematic.Geometry.Placement

/-!
# Symbols

A symbol is what a component is drawn with: a body and pins.  Pin positions are
kept as symbol libraries give them, with `y` pointing upward; everything handed
out for the drawing is turned into sheet coordinates.

## Main definitions

* `SymbolPin`, `Symbol` — the geometry of a symbol.
* `Symbol.findPin?` — the pin that a key addresses, numbers before names.
* `SymbolSource`, `SymbolSource.boundingBox` — symbols by name and the boxes of
  placed components.
-/

namespace Schematic

open Scalar

/-- A pin of a symbol. -/
structure SymbolPin (α : Type) where
  /-- Its number. -/
  number : String
  /-- Its name. -/
  name : String
  /-- The horizontal position of its connection point. -/
  x : α
  /-- The vertical position of its connection point, upward. -/
  y : α
  /-- The direction from the connection point to the body, in degrees. -/
  angle : α
  /-- The length of its line. -/
  length : α
  deriving BEq, Repr

/-- The geometry of a symbol. -/
structure Symbol (α : Type) where
  /-- The name of the symbol, such as `Device:R`. -/
  id : String
  /-- Its pins. -/
  pins : List (SymbolPin α)
  /-- The outline of its body, in sheet coordinates. -/
  body : Option (Rect α)
  /-- Whether it stands for a power net. -/
  power : Bool
  deriving BEq, Repr

variable {α : Type} [Scalar α]

namespace SymbolPin

/-- The connection point as an offset on the sheet. -/
def sheetOffset (p : SymbolPin α) : Point α := ⟨p.x, -p.y⟩

/-- The direction away from the body, in degrees. -/
def outwardAngle (p : SymbolPin α) : α := p.angle + 180

end SymbolPin

/-- The box assumed for a symbol that is unknown or empty. -/
def defaultBounds : Rect α := .centered .origin 10.16 10.16

namespace Symbol

omit [Scalar α] in
/-- The pin that a key addresses: one with that number, else one with that
name. -/
def findPin? (s : Symbol α) (key : String) : Option (SymbolPin α) :=
  (s.pins.find? (·.number == key)).orElse fun _ => s.pins.find? (·.name == key)

/-- The box around a box, if there is one yet, and the connection point of a
pin. -/
def extendBounds (bounds : Option (Rect α)) (p : SymbolPin α) : Option (Rect α) :=
  let tip := Rect.ofPoint p.sheetOffset
  some (match bounds with
    | some b => b.union tip
    | none => tip)

/-- The box around the body and the connection points. -/
def localBounds (s : Symbol α) : Rect α :=
  (s.pins.foldl extendBounds s.body).getD defaultBounds

end Symbol

/-- Symbols by name. -/
abbrev SymbolSource (α : Type) := String → Option (Symbol α)

namespace SymbolSource

/-- The box of a symbol around its origin; one is assumed for an unknown
symbol. -/
def localBounds (symbols : SymbolSource α) (id : String) : Rect α :=
  ((symbols id).map (·.localBounds)).getD defaultBounds

/-- The box of a placed symbol. -/
def boundingBox (symbols : SymbolSource α) (id : String) (placement : Placement α) : Rect α :=
  placeBox (symbols.localBounds id) placement

omit [Scalar α] in
/-- The number of the pin that a key of a symbol addresses. -/
def pinNumber? (symbols : SymbolSource α) (id key : String) : Option String :=
  ((symbols id).bind (·.findPin? key)).map (·.number)

end SymbolSource

end Schematic
