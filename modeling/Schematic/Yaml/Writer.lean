import Schematic.Number.Binary64.Coordinate
import Schematic.Yaml.Value

/-!
# Writing YAML scalars

A text is written plain where that reads back as the same text, else between
single quotes, and between double quotes when it holds characters that have to
be escaped.  A text of several lines is written as a block of lines.  Numbers are
written so that they read back as numbers.

## Main definitions

* `Yaml.textScalar` — a text.
* `Yaml.floatScalar`, `Yaml.boolScalar` — a number, a truth value.
-/

namespace Schematic.Yaml

/-- Whether a plain scalar with this text would be read as something other than
a text, or looks like a number with leading zeros. -/
def readsAsValue (text : String) : Bool :=
  !(Value.ofPlain text : Value Float).isText || Value.isZeroFilled text.toList

/-- Whether a character is written as it is. -/
def isShown (c : Char) : Bool :=
  let n := c.toNat
  (0x20 ≤ n && n ≤ 0x7E) || (0xA0 ≤ n && n ≤ 0xFFFD && n ≠ 0xFEFF) || 0x10000 ≤ n

/-- The characters that start something other than a plain scalar. -/
def indicators : List Char :=
  ['#', ',', '[', ']', '{', '}', '&', '*', '!', '|', '>', '\'', '"', '%', '@', '\x60', ' ']

/-- Whether a text can stand plain as far as its first characters go. -/
def plainStart : List Char → Bool
  | [] => false
  | c :: rest =>
      if c = '-' || c = '?' || c = ':' then !atGap rest else !indicators.contains c

/-- Whether a text can stand plain as far as its other characters go: a colon
may not come before a gap, a hash may not come after one. -/
def plainRest : List Char → Bool
  | [] => true
  | ':' :: rest => !atGap rest && plainRest rest
  | ' ' :: '#' :: _ => false
  | _ :: rest => plainRest rest

/-- Whether a text starts or ends with a space or a line break. -/
def hasOuterSpace (cs : List Char) : Bool :=
  let outer := fun c : Char => c == ' ' || isBreak c
  cs.head?.any outer || cs.getLast?.any outer

/-- Whether a text holds a character that has to be escaped; a line break need
not. -/
def hasHidden (cs : List Char) : Bool := cs.any fun c => !(c == '\n' || isShown c)

/-- Whether a text can be written without quotes. -/
def isPlain (cs : List Char) : Bool :=
  plainStart cs && plainRest cs && !hasHidden cs && !hasOuterSpace cs && !cs.any isBreak &&
    cs.take 3 != ['-', '-', '-'] && cs.take 3 != ['.', '.', '.']

/-- Whether a space stands at the end of a line that is not the last one. -/
def hasSpaceBeforeBreak : List Char → Bool
  | [] => false
  | c :: cs => (c == ' ' && cs.head?.any isBreak) || hasSpaceBeforeBreak cs

/-- Whether a space stands at the start of a line that is not the first one. -/
def hasSpaceAfterBreak : List Char → Bool
  | [] => false
  | c :: cs => (isBreak c && cs.head? == some ' ') || hasSpaceAfterBreak cs

/-- Whether a text can be written between single quotes. -/
def isSingleQuotable (cs : List Char) : Bool :=
  !hasHidden cs && !hasSpaceBeforeBreak cs && !hasSpaceAfterBreak cs

/-- Whether a text can be written as a block of lines: it holds nothing to
escape, and no line ends in a space. -/
def isBlock (cs : List Char) : Bool :=
  !hasHidden cs && !hasSpaceBeforeBreak cs && cs.getLast? != some ' '

/-- A number in hexadecimal with some digits. -/
def hexDigits (width n : Nat) : String :=
  let ds := (Nat.toDigits 16 n).map Char.toUpper
  String.ofList (List.replicate (width - ds.length) '0' ++ ds)

/-- A character between double quotes. -/
def escapeText (c : Char) : String :=
  if c = '"' then "\\\""
  else if c = '\\' then "\\\\"
  else if isShown c && !isBreak c then c.toString
  else
    let n := c.toNat
    match n with
    | 0x00 => "\\0"
    | 0x07 => "\\a"
    | 0x08 => "\\b"
    | 0x09 => "\\t"
    | 0x0A => "\\n"
    | 0x0B => "\\v"
    | 0x0C => "\\f"
    | 0x0D => "\\r"
    | 0x1B => "\\e"
    | 0x85 => "\\N"
    | 0x2028 => "\\L"
    | 0x2029 => "\\P"
    | _ =>
        if n ≤ 0xFF then "\\x" ++ hexDigits 2 n
        else if n ≤ 0xFFFF then "\\u" ++ hexDigits 4 n
        else "\\U" ++ hexDigits 8 n

/-- The characters of a text with an indentation put before whatever comes first
on a line; `fresh` tells whether a line starts here. -/
def indentLines (indent : List Char) (fresh : Bool) : List Char → List Char
  | [] => []
  | c :: cs =>
      if isBreak c then c :: indentLines indent true cs
      else if fresh then indent ++ c :: indentLines indent false cs
      else c :: indentLines indent false cs

/-- What stands for the end of a text in the header of its block: whether the
text ends without a line break, with one, or with more than that. -/
def chompingMark (cs : List Char) : String :=
  match cs.reverse.map isBreak with
  | [true] | true :: true :: _ => "+"
  | true :: _ => ""
  | _ => "-"

/-- A text as a block of lines at some indentation. -/
def blockScalar (indent : String) (cs : List Char) : String :=
  let increment := if cs.head?.any fun c => c == ' ' || isBreak c then "2" else ""
  "|" ++ increment ++ chompingMark cs ++ "\n" ++
    String.ofList (indentLines indent.toList true cs)

/-- A text between single quotes, where a quote is written twice. -/
def singleQuoted (indent : String) (cs : List Char) : String :=
  let body := cs.flatMap fun c => if c = '\'' then ['\'', '\''] else [c]
  "'" ++ String.ofList (indentLines indent.toList false (body ++ ['\'']))

/-- A text between double quotes. -/
def doubleQuoted (cs : List Char) : String := "\"" ++ String.join (cs.map escapeText) ++ "\""

/-- A text as a scalar; `indent` stands before each of several lines. -/
def textScalar (indent text : String) : String :=
  let cs := text.toList
  if cs.contains '\n' then
    if isBlock cs then blockScalar indent cs else doubleQuoted cs
  else if !readsAsValue text && isPlain cs then text
  else if isSingleQuotable cs then singleQuoted indent cs
  else doubleQuoted cs

/-- A line whose text is complete: a line break follows, unless the text ends in
one. -/
def closeLine (line : String) : String :=
  if line.toList.getLast?.any isBreak then line else line ++ "\n"

/-- A number as a scalar. -/
def floatScalar (x : Float) : String :=
  match Binary64.compact? x with
  | some text => text
  | none => if x.isNaN then ".nan" else if x < 0.0 then "-.inf" else ".inf"

/-- A truth value as a scalar. -/
def boolScalar (b : Bool) : String := if b then "true" else "false"

end Schematic.Yaml
