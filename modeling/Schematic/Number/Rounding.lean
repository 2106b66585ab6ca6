/-!
# Rounding in whole numbers

Powers of the two bases, quotients rounded to the nearest whole number and
square roots rounded down or up, in exact arithmetic.  Every decimal text and
every correctly rounded coordinate of the library rests on these.

## Main definitions

* `twoPow`, `tenPow` — powers of the binary and the decimal base.
* `roundDiv` — the whole number nearest to a quotient, a tie going to the even
  neighbour.
* `roundSignificant` — a number with a limited count of digits.
* `floorSqrt`, `ceilSqrt` — square roots rounded down and up.
-/

namespace Schematic

/-- A power of two. -/
def twoPow (n : Nat) : Nat := Nat.pow 2 n

/-- A power of ten. -/
def tenPow (n : Nat) : Nat := Nat.pow 10 n

/-- The whole number nearest to `num / den`; a tie goes to the even one. -/
def roundDiv (num den : Nat) : Nat :=
  let q := num / den
  let twice := 2 * (num % den)
  if twice < den then q
  else if den < twice then q + 1
  else if q % 2 = 0 then q else q + 1

/-- The largest number whose square is at most `n`, two bits at a time. -/
def floorSqrt (n : Nat) : Nat :=
  if n = 0 then 0
  else
    let r := 2 * floorSqrt (n / 4)
    if (r + 1) * (r + 1) ≤ n then r + 1 else r
termination_by n

/-- A number rounded to some number of significant binary digits; a tie goes to
the even neighbour. -/
def roundSignificant (digits n : Nat) : Nat :=
  let unit := twoPow (Nat.log2 n + 1 - digits)
  roundDiv n unit * unit

/-- The square root of `n` rounded up to a whole number, where both `n` and the
root have some number of significant binary digits: what the root exceeds a
whole number by counts only if it is more than half a unit of the last digit. -/
def ceilSqrt (digits n : Nat) : Nat :=
  let m := roundSignificant digits n
  let r := floorSqrt m
  let scale := twoPow (digits - Nat.log2 r)
  if m * (scale * scale) ≤ (r * scale + 1) * (r * scale + 1) then r else r + 1

end Schematic
