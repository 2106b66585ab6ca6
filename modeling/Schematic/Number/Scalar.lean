import Schematic.Number.Decimal

/-!
# Coordinates

Drawing coordinates, angles and distances are numbers of one type `α` with the
operations of `Scalar`.  The library is written once for every such type: the
program runs on binary floating point, while geometry can be reasoned about in
any ordered field with a rounding function.

## Main definitions

* `Scalar` — arithmetic, order, rounding and text of a coordinate type.
* `Scalar.max`, `Scalar.min`, `Scalar.abs` — the usual derived operations; of a
  pair with a not-a-number, `max` and `min` answer the other one.
* `clampInt64`, `wrapInt64` — whole numbers cut to 64 bits, the range of grid
  indices, and wrapped around into it.
-/

namespace Schematic

/-- A type of coordinates. -/
class Scalar (α : Type) extends Add α, Sub α, Mul α, Div α, Neg α, LT α, LE α, BEq α where
  /-- The strict order is decidable. -/
  decLt : DecidableLT α
  /-- The order is decidable. -/
  decLe : DecidableLE α
  /-- A whole number. -/
  ofInt : Int → α
  /-- The number that a text denotes, the nearest one to a decimal. -/
  ofNumber : NumberText → α
  /-- The whole number below. -/
  floor : α → α
  /-- The whole number above. -/
  ceil : α → α
  /-- The nearest whole number, a tie going away from zero. -/
  round : α → α
  /-- The whole part as an integer: toward zero, and `0` for a not-a-number. -/
  truncate : α → Int
  /-- The remainder of truncated division, with the sign of the dividend. -/
  remainder : α → α → α
  /-- Whether the number is an ordinary one, neither infinite nor undefined. -/
  isFinite : α → Bool
  /-- The length of the hypotenuse. -/
  hypot : α → α → α
  /-- The sine of an angle in radians. -/
  sin : α → α
  /-- The cosine of an angle in radians. -/
  cos : α → α
  /-- The angle of the point with the given `y` and `x`, in radians. -/
  atan2 : α → α → α
  /-- Half a turn in radians. -/
  pi : α
  /-- The text with a fixed count of decimal places, a tie going to the even
  digit. -/
  fixed : Nat → α → String
  /-- The shortest decimal text that reads back as the number. -/
  shortest : α → String

namespace Scalar

variable {α : Type} [Scalar α]

instance instDecidableLt (a b : α) : Decidable (a < b) := decLt a b

instance instDecidableLe (a b : α) : Decidable (a ≤ b) := decLe a b

/-- The number nearest to a decimal one. -/
@[inline] def ofDecimal (d : Decimal) : α := ofNumber (.finite d)

/-- Whole-number literals. -/
scoped instance (priority := low) instOfNat (n : Nat) : OfNat α n := ⟨ofInt n⟩

/-- Decimal literals. -/
scoped instance (priority := low) instOfScientific : OfScientific α :=
  ⟨fun digits down e => ofDecimal ⟨false, digits, if down then -(e : Int) else e⟩⟩

/-- Zero is the default coordinate. -/
scoped instance (priority := low) instInhabited : Inhabited α := ⟨ofInt 0⟩

/-- The magnitude of a number. -/
@[inline] def abs (a : α) : α := if a < ofInt 0 then -a else a

/-- The larger number, or the defined one of a pair. -/
@[inline] def max (a b : α) : α := if a < b then b else if a == a then a else b

/-- The smaller number, or the defined one of a pair. -/
@[inline] def min (a b : α) : α := if b < a then b else if a == a then a else b

end Scalar

/-- A whole number cut to the range of 64-bit signed integers. -/
def clampInt64 (n : Int) : Int :=
  if n < -9223372036854775808 then -9223372036854775808
  else if 9223372036854775807 < n then 9223372036854775807
  else n

/-- A whole number wrapped around into the range of 64-bit signed integers. -/
def wrapInt64 (n : Int) : Int :=
  if clampInt64 n = n then n else n.bmod 18446744073709551616

/-- The whole part of a coordinate as a 64-bit grid index. -/
@[inline] def Scalar.toIndex {α : Type} [Scalar α] (a : α) : Int := clampInt64 (Scalar.truncate a)

end Schematic
