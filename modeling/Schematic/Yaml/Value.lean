import Schematic.Yaml.Decode

/-!
# Values without a given type

Where a document does not say what kind of value is asked for, a plain scalar
tells by its own text: it is nothing, a truth value, a whole number, another
number, or else a text.  Whole numbers have 64 bits; the ones that need more, up
to 128 bits, cannot be held, and the ones beyond that are other numbers or
texts.

## Main definitions

* `Yaml.Value` — what a scalar says by itself.
* `Yaml.Value.ofNode?` — the value of a scalar.
* `Yaml.Node.canHold` — whether a part of a document can be taken without
  knowing what is asked for.
-/

namespace Schematic.Yaml

/-- What a scalar says by itself. -/
inductive Value (α : Type) where
  /-- That there is no value. -/
  | null
  /-- A truth value. -/
  | truth (value : Bool)
  /-- A whole number without a minus sign. -/
  | natural (n : Nat)
  /-- A whole number with a minus sign, by its magnitude. -/
  | negative (magnitude : Nat)
  /-- A whole number that 64 bits cannot hold. -/
  | wide
  /-- A number that is not written as a whole one. -/
  | number (x : α)
  /-- A text. -/
  | text (text : String)
  deriving Repr

namespace Value

variable {α : Type}

/-- The whole number that a text denotes, as far as 128 bits go. -/
def whole? (cs : List Char) : Option (Value α) :=
  match Node.natOfText? cs with
  | some n =>
      if n < twoPow 64 then some (.natural n)
      else if n < twoPow 128 then some .wide
      else none
  | none =>
      (Node.negativeOfText? cs).bind fun n =>
        if n ≤ twoPow 63 then some (.negative n)
        else if n ≤ twoPow 127 then some .wide
        else none

/-- Whether a text consists of digits with a leading zero, after at most one
sign; it denotes no number. -/
def isZeroFilled (cs : List Char) : Bool := Node.hasLeadingZero (Decimal.splitSign cs).2

/-- Whether a value is a text. -/
def isText : Value α → Bool
  | .text _ => true
  | _ => false

/-- Whether a value is a whole number that 64 bits cannot hold. -/
def isWide : Value α → Bool
  | .wide => true
  | _ => false

variable [Scalar α]

/-- What a plain scalar with some text says. -/
def ofPlain (text : String) : Value α :=
  let n := Node.scalar true text
  let cs := text.toList
  if n.isNull then .null
  else
    match n.bool? with
    | some b => .truth b
    | none =>
        match whole? cs, (n.scalar? : Option α) with
        | some v, _ => v
        | none, some x => if isZeroFilled cs then .text text else .number x
        | none, none => .text text

/-- What a scalar says; one that is not plain is a text. -/
def ofScalar (plain : Bool) (text : String) : Value α :=
  if plain then ofPlain text else .text text

/-- The value of a scalar. -/
def ofNode? : Node → Option (Value α)
  | .scalar plain content => some (ofScalar plain content)
  | _ => none

end Value

/-- Whether a part of a document can be taken without knowing what is asked for:
it has at most `depth` collections inside each other, and its whole numbers fit
into 64 bits. -/
def Node.canHold (α : Type) [Scalar α] : Nat → Node → Bool
  | _, .scalar plain text => !(Value.ofScalar plain text : Value α).isWide
  | 0, _ => false
  | depth + 1, .sequence items => items.all (canHold α depth)
  | depth + 1, .mapping pairs => pairs.all fun p => canHold α depth p.1 && canHold α depth p.2

end Schematic.Yaml
