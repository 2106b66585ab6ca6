import Schematic.Number.Binary64.Exact
import Schematic.Number.Decimal

/-!
# Decimal text of floating-point numbers

A number is written with a fixed count of places, from its exact value, or with
the fewest significant digits that read back as it, the nearest of those.

## Main definitions

* `Binary64.shortestDigits` — the fewest digits, and their power of ten.
* `Binary64.fixed` — a fixed count of decimal places.
* `Binary64.shortest` — the fewest digits, never with an exponent.
* `Binary64.compact` — the fewest digits with a fraction always present, and an
  exponent beyond sixteen whole digits or four leading zeros.
* `Binary64.ofDecimal` — the number nearest to a decimal one.
-/

namespace Schematic.Binary64

/-- The power of ten just above a magnitude: `10 ^ (k - 1) ≤ num / den < 10 ^ k`. -/
def decimalOrder (num den : Nat) : Int :=
  if den ≤ num then (Nat.toDigits 10 (num / den)).length
  else
    let n := (Nat.toDigits 10 (den / num)).length
    if den ≤ num * tenPow (n - 1) then 2 - (n : Int) else 1 - (n : Int)

/-- The interval of magnitudes that round to `m · 2 ^ e`, as three numerators
(low end, value, high end) over one denominator. -/
def roundingInterval (m : Nat) (e : Int) : Nat × Nat × Nat × Nat :=
  -- Just above a power of two the numbers below lie twice as dense.
  let narrow := m = twoPow 52 ∧ -1074 < e
  let (num, den) := ratio 1 (e - 2)
  ((4 * m - if narrow then 1 else 2) * num, 4 * m * num, (4 * m + 2) * num, den)

/-- The nearest point with `count` significant digits that lies in the rounding
interval, as digits and a power of ten; of two equally near ones the even one. -/
def digitsWithin (low value high den : Nat) (closed : Bool) (order : Int) (count : Nat) :
    Option (Nat × Int) :=
  let e := order - count
  -- Scale so that points of the grid are whole multiples of `unit`.
  let up := tenPow (-e).toNat
  let unit := den * tenPow e.toNat
  let d := value * up / unit
  let inside (n : Nat) : Bool :=
    let p := n * unit
    if closed then low * up ≤ p && p ≤ high * up else low * up < p && p < high * up
  let below := inside d
  let above := inside (d + 1)
  let toBelow := value * up - d * unit
  let toAbove := (d + 1) * unit - value * up
  if below && above then
    if toBelow < toAbove ∨ (toBelow = toAbove ∧ d % 2 = 0) then some (d, e) else some (d + 1, e)
  else if below then some (d, e)
  else if above then some (d + 1, e)
  else none

/-- Move trailing zeros of the digits into the power of ten. -/
def stripZeros : Nat → Nat → Int → Nat × Int
  | 0, d, e => (d, e)
  | n + 1, d, e => if d ≠ 0 ∧ d % 10 = 0 then stripZeros n (d / 10) (e + 1) else (d, e)

/-- The fewest significant digits whose value reads back as `m · 2 ^ e`, with
their power of ten. -/
def shortestDigits (m : Nat) (e : Int) : Nat × Int :=
  if m = 0 then (0, 0)
  else
    let (low, value, high, den) := roundingInterval m e
    let order := decimalOrder value den
    let found := (List.range 17).findSome? fun i =>
      digitsWithin low value high den (m % 2 = 0) order (i + 1)
    let (d, k) := found.getD (m * (ratio 1 e).1, 0)
    stripZeros 20 d k

/-- The text with `places` decimal places of the exact value. -/
def fixed (places : Nat) (x : Float) : String :=
  match ofFloat x with
  | .finite negative m e =>
      let (num, den) := ratio m e
      fixedText places negative num den
  | .infinite negative => if negative then "-inf" else "inf"
  | .nan => "NaN"

/-- The shortest text that reads back, written without an exponent. -/
def shortest (x : Float) : String :=
  match ofFloat x with
  | .finite negative m e =>
      let (d, k) := shortestDigits m e
      (if negative then "-" else "") ++ positionalText d k
  | .infinite negative => if negative then "-inf" else "inf"
  | .nan => "NaN"

/-- The magnitude `digits · 10 ^ exponent` with a fraction always present; an
exponent is written from `10 ^ 16` on and below `10 ^ -5`. -/
def compactMagnitude (digits : Nat) (exponent : Int) : String :=
  let ds := Nat.toDigits 10 digits
  let order := (ds.length : Int) + exponent
  if 0 ≤ exponent ∧ order ≤ 16 then positionalText digits exponent ++ ".0"
  else if -5 < order ∧ order ≤ 16 then positionalText digits exponent
  else
    let head := String.ofList (ds.take 1)
    let tail := ds.drop 1
    let fraction := if tail.isEmpty then "" else "." ++ String.ofList tail
    head ++ fraction ++ "e" ++ toString (order - 1)

/-- The shortest text that reads back, in the compact form; `none` for a number
that is not finite. -/
def compact? (x : Float) : Option String :=
  match ofFloat x with
  | .finite negative m e =>
      let (d, k) := shortestDigits m e
      some ((if negative then "-" else "") ++ compactMagnitude d k)
  | _ => none

/-- The number nearest to a decimal one.  Where both the digits and the power of
ten are exact floating-point numbers, one operation rounds correctly; powers of
ten far outside the range of binary64 are cut before they are computed. -/
def ofDecimal (d : Decimal) : Float :=
  let down := (-d.exponent).toNat
  let up := d.exponent.toNat
  let magnitude : Float :=
    if d.digits < 9007199254740992 ∧ down ≤ 22 ∧ up ≤ 22 then
      if up = 0 then Float.ofNat d.digits / Float.ofNat (tenPow down)
      else Float.ofNat d.digits * Float.ofNat (tenPow up)
    else
      let order := ((Nat.toDigits 10 d.digits).length : Int) + d.exponent
      if d.digits = 0 ∨ order < -400 then 0.0
      else if 400 < order then 1.0 / 0.0
      else if 0 ≤ d.exponent then OfScientific.ofScientific d.digits false up
      else OfScientific.ofScientific d.digits true down
  if d.negative then -magnitude else magnitude

end Schematic.Binary64
