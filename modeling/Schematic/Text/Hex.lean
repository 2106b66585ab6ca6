/-!
# Hexadecimal digits

Identifiers and escaped characters are written in hexadecimal.  Digits are read
in both cases and written in lower case.

## Main definitions

* `hexDigit`, `hexDigitValue?` — the digit of a value and the value of a digit.
* `hexValue?` — the number that a run of digits denotes.

## Main statements

* `hexDigitValue?_hexDigit` — the digit of a value has that value.
-/

namespace Schematic

/-- The last hexadecimal digit of a number. -/
def hexDigit (n : Nat) : Char := Nat.digitChar (n % 16)

/-- The value of a hexadecimal digit. -/
def hexDigitValue? (c : Char) : Option Nat :=
  if c.isDigit then some (c.toNat - 48)
  else if 'a' ≤ c && c ≤ 'f' then some (c.toNat - 87)
  else if 'A' ≤ c && c ≤ 'F' then some (c.toNat - 55)
  else none

/-- Whether a character is a hexadecimal digit. -/
def isHexDigit (c : Char) : Bool := (hexDigitValue? c).isSome

/-- The number that a run of hexadecimal digits denotes, most significant
first. -/
def hexValue? (ds : List Char) : Option Nat :=
  (ds.mapM hexDigitValue?).map (·.foldl (fun n d => 16 * n + d) 0)

/-- The digit of a value has that value. -/
theorem hexDigitValue?_hexDigit (n : Nat) : hexDigitValue? (hexDigit n) = some (n % 16) := by
  have h : ∀ d : Fin 16, hexDigitValue? (Nat.digitChar d) = some d.val := by decide
  exact h ⟨n % 16, Nat.mod_lt n (by decide)⟩

end Schematic
