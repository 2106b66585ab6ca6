/-!
# Blank characters

The characters Unicode counts as white space, and trimming them off a text.

## Main definitions

* `isBlank` — whether a character is white space.
* `trimBlanksLeft`, `trimBlanks` — a text without its leading, or leading and
  trailing, white space.
-/

namespace Schematic

/-- Whether a character has the Unicode property `White_Space`. -/
def isBlank (c : Char) : Bool :=
  let n := c.toNat
  (0x09 ≤ n && n ≤ 0x0D) || n == 0x20 || n == 0x85 || n == 0xA0 || n == 0x1680 ||
    (0x2000 ≤ n && n ≤ 0x200A) || n == 0x2028 || n == 0x2029 || n == 0x202F || n == 0x205F ||
    n == 0x3000

/-- Drop the leading white space. -/
def trimBlanksLeft (cs : List Char) : List Char := cs.dropWhile isBlank

/-- Drop the leading and the trailing white space. -/
def trimBlanks (cs : List Char) : List Char :=
  ((trimBlanksLeft cs).reverse.dropWhile isBlank).reverse

end Schematic
