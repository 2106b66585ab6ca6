import Schematic.Number.Rounding

/-!
# Binary floating point, exactly

A binary64 number is a signed whole number times a power of two.  Operations
that have to be exact, or rounded once, are computed on that form.

## Main definitions

* `Binary64`, `Binary64.ofFloat`, `Binary64.toFloat` — the exact form.
* `Binary64.remainder` — the remainder of truncated division, which is exact.
* `Binary64.hypot` — the hypotenuse, rounded once.
* `Binary64.truncate` — the whole part as an integer of any size.
-/

namespace Schematic

/-- What a binary64 number denotes. -/
inductive Binary64 where
  /-- `± mantissa · 2 ^ exponent`. -/
  | finite (negative : Bool) (mantissa : Nat) (exponent : Int)
  /-- An infinity. -/
  | infinite (negative : Bool)
  /-- Not a number. -/
  | nan
  deriving DecidableEq, Repr, Inhabited

namespace Binary64

/-- Take a number's bits apart. -/
def ofFloat (x : Float) : Binary64 :=
  let bits : Nat := x.toBits.toNat
  let negative : Bool := bits / twoPow 63 = 1
  let field : Nat := bits / twoPow 52 % twoPow 11
  let fraction : Nat := bits % twoPow 52
  if field = 2047 then
    if fraction = 0 then .infinite negative else .nan
  else if field = 0 then .finite negative fraction (-1074)
  else .finite negative (twoPow 52 + fraction) (Int.ofNat field - 1075)

/-- `± mantissa · 2 ^ exponent` as a floating-point number. -/
def toFloat (negative : Bool) (mantissa : Nat) (exponent : Int) : Float :=
  let magnitude := Float.scaleB (Float.ofNat mantissa) exponent
  if negative then -magnitude else magnitude

/-- The magnitude of `mantissa · 2 ^ exponent` as a quotient of whole numbers. -/
def ratio (mantissa : Nat) (exponent : Int) : Nat × Nat :=
  if 0 ≤ exponent then (mantissa * twoPow exponent.toNat, 1)
  else (mantissa, twoPow (-exponent).toNat)

/-- The remainder of truncated division: it has the sign of the dividend and a
smaller magnitude than the divisor. -/
def remainder (x y : Float) : Float :=
  match ofFloat x, ofFloat y with
  | .finite negative m e, .finite _ n f =>
      if n = 0 then 0.0 / 0.0
      else
        let g := min e f
        toFloat negative (m * twoPow (e - g).toNat % (n * twoPow (f - g).toNat)) g
  | .finite .., .infinite _ => x
  | _, _ => 0.0 / 0.0

/-- The square root of `n · 2 ^ (2 · exponent)`, rounded once.  The root is taken
from about 120 bits of `n`; when something was cut off, it gets one more bit, so
that it is never mistaken for a tie. -/
def sqrtFloat (n : Nat) (exponent : Int) : Float :=
  let shift := (119 - (Nat.log2 n : Int)) / 2
  let cut := twoPow (2 * (-shift).toNat)
  let m := n * twoPow (2 * shift.toNat) / cut
  let root := floorSqrt m
  toFloat false (2 * root + if root * root = m && n % cut = 0 then 0 else 1) (exponent - shift - 1)

/-- The length of the hypotenuse of a right triangle, rounded once; an infinite
side outweighs an undefined one.  A side that is shorter than the other by more
than 60 bits makes no difference. -/
def hypot (x y : Float) : Float :=
  match ofFloat x, ofFloat y with
  | .finite _ m e, .finite _ n f =>
      let a : Int := Nat.log2 m + e
      let b : Int := Nat.log2 n + f
      if n = 0 || (m ≠ 0 && b + 60 < a) then x.abs
      else if m = 0 || a + 60 < b then y.abs
      else
        let g := min e f
        let p := m * twoPow (e - g).toNat
        let q := n * twoPow (f - g).toNat
        sqrtFloat (p * p + q * q) g
  | .infinite _, _ | _, .infinite _ => 1.0 / 0.0
  | _, _ => 0.0 / 0.0

/-- The whole part of a number, toward zero; an infinity counts as a magnitude
above every finite one and a not-a-number as zero. -/
def truncate (x : Float) : Int :=
  match ofFloat x with
  | .finite negative m e =>
      let whole : Nat := if 0 ≤ e then m * twoPow e.toNat else m / twoPow (-e).toNat
      if negative then -(whole : Int) else whole
  | .infinite negative => if negative then -(twoPow 1024 : Int) else twoPow 1024
  | .nan => 0

end Binary64

end Schematic
