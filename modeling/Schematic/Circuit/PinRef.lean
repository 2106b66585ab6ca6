import Schematic.Text.Blank

/-!
# Pin references

A pin is named by the reference designator of its component, a point, and the
number or name of the pin, as in `R1.2` or `U1.IN+`.

## Main definitions

* `PinRef`, `PinRef.parse?` — references and their reading.
* `PinRef.text` — the written form.
-/

namespace Schematic

/-- A reference to a pin. -/
structure PinRef where
  /-- The reference designator of the component. -/
  reference : String
  /-- The number or name of the pin. -/
  key : String
  deriving DecidableEq, Repr, Inhabited

namespace PinRef

/-- The characters of reference designators. -/
def isDesignatorChar (c : Char) : Bool := c.isAlphanum || c == '_' || c == '-'

/-- Read a reference, with white space around it passed over.  Neither half may
be empty; the key may hold any characters. -/
def parse? (text : String) : Option PinRef :=
  let cs := trimBlanks text.toList
  let designator := cs.takeWhile isDesignatorChar
  match cs.dropWhile isDesignatorChar with
  | '.' :: key =>
      if designator.isEmpty || key.isEmpty then none
      else some ⟨String.ofList designator, String.ofList key⟩
  | _ => none

/-- The written form of a reference. -/
def text (r : PinRef) : String := r.reference ++ "." ++ r.key

end PinRef

end Schematic
