import Schematic.Number.Rounding

/-!
# Decimal text of numbers

Numbers are written with a fixed count of places, or from their significant
digits; they are read from the usual decimal form with an optional exponent.

## Main definitions

* `Decimal` — a number as it is read: sign, digits and a power of ten.
* `Decimal.parse?` — read the decimal form, infinities and not-a-number.
* `fixedText` — a quotient written with a fixed count of places.
* `positionalText` — significant digits and a power of ten written without an
  exponent.
* `trimFraction` — drop the trailing zeros of a fraction, and its point.
-/

namespace Schematic

/-- The number `± digits · 10 ^ exponent`. -/
structure Decimal where
  /-- Whether the sign is a minus. -/
  negative : Bool
  /-- The digits as one whole number. -/
  digits : Nat
  /-- The power of ten the digits are scaled by. -/
  exponent : Int
  deriving DecidableEq, Repr, Inhabited

/-- What a number's text denotes. -/
inductive NumberText where
  /-- An ordinary number. -/
  | finite (value : Decimal)
  /-- An infinity. -/
  | infinite (negative : Bool)
  /-- Not a number. -/
  | nan
  deriving DecidableEq, Repr, Inhabited

/-- The decimal digits of `n`, most significant first. -/
def digitText (n : Nat) : String := String.ofList (Nat.toDigits 10 n)

/-- `n` in decimal, filled with zeros on the left up to `width` digits. -/
def paddedDigits (width n : Nat) : List Char :=
  let ds := Nat.toDigits 10 n
  List.replicate (width - ds.length) '0' ++ ds

/-- The value of a run of decimal digits, continuing from `start`. -/
def digitsValue (start : Nat) (ds : List Char) : Nat :=
  ds.foldl (fun n c => 10 * n + (c.toNat - '0'.toNat)) start

namespace Decimal

/-- Split a leading sign off; a missing sign is a plus. -/
def splitSign : List Char → Bool × List Char
  | '-' :: rest => (true, rest)
  | '+' :: rest => (false, rest)
  | rest => (false, rest)

/-- Read an exponent part: nothing, or `e` with an optional sign and at least
one digit. -/
def parseExponent? : List Char → Option Int
  | [] => some 0
  | c :: rest =>
      if c = 'e' ∨ c = 'E' then
        let (negative, digits) := splitSign rest
        if digits.isEmpty || !digits.all Char.isDigit then none
        else
          let n := digitsValue 0 digits
          some (if negative then -(n : Int) else n)
      else none

/-- Read an unsigned number: digits with an optional point among or around
them, at least one digit, and an optional exponent. -/
def parseUnsigned? (negative : Bool) (cs : List Char) : Option Decimal :=
  let whole := cs.takeWhile Char.isDigit
  let afterWhole := cs.dropWhile Char.isDigit
  let (fraction, rest) : List Char × List Char :=
    match afterWhole with
    | '.' :: more => (more.takeWhile Char.isDigit, more.dropWhile Char.isDigit)
    | other => ([], other)
  if whole.isEmpty && fraction.isEmpty then none
  else
    (parseExponent? rest).map fun e =>
      { negative
        digits := digitsValue (digitsValue 0 whole) fraction
        exponent := e - fraction.length }

/-- Read a number: a signed decimal, `inf`, `infinity` or `nan` in any letter
case. -/
def parse? (cs : List Char) : Option NumberText :=
  let (negative, body) := splitSign cs
  let word := String.ofList (body.map Char.toLower)
  if word = "inf" ∨ word = "infinity" then some (.infinite negative)
  else if word = "nan" then some .nan
  else (parseUnsigned? negative body).map .finite

end Decimal

/-- The magnitude `num / den` with exactly `places` decimal places, a tie going
to the even last digit; `negative` asks for a minus sign, also before a zero. -/
def fixedText (places : Nat) (negative : Bool) (num den : Nat) : String :=
  let units := roundDiv (num * tenPow places) den
  let sign := if negative then "-" else ""
  let whole := digitText (units / tenPow places)
  if places = 0 then sign ++ whole
  else
    sign ++ whole ++ "." ++ String.ofList (paddedDigits places (units % tenPow places))

/-- The number `digits · 10 ^ exponent` without an exponent part. -/
def positionalText (digits : Nat) (exponent : Int) : String :=
  if 0 ≤ exponent then digitText (digits * tenPow exponent.toNat)
  else
    let places := (-exponent).toNat
    digitText (digits / tenPow places) ++ "." ++
      String.ofList (paddedDigits places (digits % tenPow places))

/-- Drop the trailing zeros of a text, then one trailing point. -/
def trimFraction (text : String) : String :=
  let reversed := text.toList.reverse.dropWhile (· = '0')
  let reversed := reversed.dropWhile (· = '.')
  String.ofList reversed.reverse

end Schematic
