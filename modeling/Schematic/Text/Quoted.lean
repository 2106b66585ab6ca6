import Schematic.Text.Printable

/-!
# Quoted texts in messages

A message shows a text between double quotes with everything escaped that could
not be seen or would be mistaken for the quotes.

## Main definitions

* `quoteText` — the quoted form of a text.
-/

namespace Schematic

/-- The code point of a character in lower-case hexadecimal. -/
def codePointText (c : Char) : String := String.ofList (Nat.toDigits 16 c.toNat)

/-- One character of a quoted text. -/
def quoteChar (c : Char) : String :=
  if c = '"' then "\\\""
  else if c = '\\' then "\\\\"
  else if c = '\n' then "\\n"
  else if c = '\t' then "\\t"
  else if c = '\r' then "\\r"
  else if c = '\x00' then "\\0"
  else if isPrintable c then c.toString
  else "\\u\x7b" ++ codePointText c ++ "\x7d"

/-- A text between quotes, its unprintable characters given by code point. -/
def quoteText (text : String) : String :=
  "\"" ++ String.join (text.toList.map quoteChar) ++ "\""

end Schematic
