import Schematic.Symbol.Basic
import Schematic.Yaml.Decode

/-!
# Symbol definitions

The form in which a symbol library describes symbols.  A symbol may extend
another one: it starts from that symbol's pins and body and overrides them.

## Main definitions

* `SymbolDef`, `SymbolPinDef` — definitions.
* `SymbolDef.readList?` — reading a library's list of definitions from YAML.
-/

namespace Schematic

open Scalar Yaml

/-- A pin as a library gives it. -/
structure SymbolPinDef (α : Type) where
  /-- Its number. -/
  number : String
  /-- Its name. -/
  name : String
  /-- The horizontal position of its connection point. -/
  x : α
  /-- The vertical position of its connection point, upward. -/
  y : α
  /-- The direction from the connection point to the body, in degrees. -/
  angle : α
  /-- The length of its line. -/
  length : α
  deriving Repr

/-- A symbol as a library gives it. -/
structure SymbolDef (α : Type) where
  /-- The name of the symbol. -/
  id : String
  /-- The name of the symbol it extends. -/
  base : Option String := none
  /-- Two opposite corners of its body, with `y` upward. -/
  body : Option (Point α × Point α) := none
  /-- Its pins. -/
  pins : List (SymbolPinDef α) := []
  /-- Whether it stands for a power net. -/
  power : Bool := false
  deriving Repr

variable {α : Type} [Scalar α]

/-- Read the definition of a pin. -/
def SymbolPinDef.ofNode? (n : Node) : Option (SymbolPinDef α) := do
  let fs ← n.fields? ["number", "name", "at", "length"]
  let number ← fs.required? "number" Node.text?
  let name ← fs.withDefault? "name" Node.text? ""
  let at? ← fs.required? "at" (Node.vector? 3 Node.scalar?)
  let length ← fs.withDefault? "length" Node.scalar? 2.54
  match at? with
  | [x, y, angle] => some { number, name, x, y, angle, length }
  | _ => none

namespace SymbolDef

/-- Read the definition of a symbol. -/
def ofNode? (n : Node) : Option (SymbolDef α) := do
  let fs ← n.fields? ["id", "extends", "body", "pins", "power"]
  let id ← fs.required? "id" Node.text?
  let base ← fs.optional? "extends" Node.text?
  let corners ← fs.optional? "body" (Node.vector? 4 Node.scalar?)
  let pins ← fs.withDefault? "pins" (Node.list? SymbolPinDef.ofNode?) []
  let power ← fs.withDefault? "power" Node.bool? false
  let body := match corners with
    | some [x0, y0, x1, y1] => some (⟨x0, y0⟩, ⟨x1, y1⟩)
    | _ => none
  some { id, base, body, pins, power }

/-- Read a list of definitions from YAML text. -/
def readList? (text : String) : Option (List (SymbolDef α)) :=
  (Node.read? text).bind (Node.list? ofNode?)

end SymbolDef

end Schematic
