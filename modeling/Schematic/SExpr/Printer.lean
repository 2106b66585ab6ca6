import Schematic.Number.Scalar
import Schematic.SExpr.Basic

/-!
# Writing S-expressions

A list without nested lists, and every record of a short kind, is written on
one line.  Any other list keeps its leading atoms on the opening line, gives
each further member an indented line of its own, and closes on its own line.

Numbers carry at most four decimals.

## Main definitions

* `numberText` — a number with at most four decimals and no trailing zeros.
* `SExpr.inlineChars`, `SExpr.inlineText` — the one-line form.
* `SExpr.lines`, `SExpr.documentText` — the indented form of a document.
-/

namespace Schematic

open Scalar

variable {α : Type} [Scalar α]

/-- Round to four decimals, a tie going away from zero. -/
def roundToTenThousandths (v : α) : α := Scalar.round (v * 10000) / 10000

/-- A number with at most four decimals and no trailing zeros.  What is not an
ordinary number is written as zero. -/
def numberText (v : α) : String :=
  if Scalar.isFinite v then
    let rounded := roundToTenThousandths v
    if rounded == 0 then "0" else trimFraction (Scalar.fixed 4 rounded)
  else "0"

namespace SExpr

/-- The heads of records that stay on one line whatever they contain. -/
def inlineHeads : List String :=
  ["property", "pin", "node", "at", "xy", "pts", "uuid", "stroke", "effects", "font", "size",
   "lib_id", "reference", "page", "path", "comp", "libsource", "justify", "fill", "color",
   "paper", "version", "generator", "unit", "in_bom", "on_board", "dnp", "instances"]

/-- A character inside a quoted string. -/
def escapeChar : Char → List Char
  | '"' => ['\\', '"']
  | '\\' => ['\\', '\\']
  | '\n' => ['\\', 'n']
  | c => [c]

/-- A string between quotes. -/
def stringChars (s : String) : List Char := '"' :: s.toList.flatMap escapeChar ++ ['"']

mutual

/-- The one-line form. -/
def inlineChars : SExpr α → List Char
  | .list xs => '(' :: inlineItems xs ++ [')']
  | .symbol s => s.toList
  | .string s => stringChars s
  | .number v => (numberText v).toList

/-- The one-line forms of the members of a list, separated by spaces. -/
def inlineItems : List (SExpr α) → List Char
  | [] => []
  | [x] => inlineChars x
  | x :: y :: ys => inlineChars x ++ ' ' :: inlineItems (y :: ys)

end

/-- The one-line form as text. -/
def inlineText (e : SExpr α) : String := String.ofList (inlineChars e)

/-- Whether an expression is written on one line. -/
def staysInline : SExpr α → Bool
  | .list xs =>
      (match xs with
        | .symbol s :: _ => inlineHeads.contains s
        | _ => false) || !xs.any isList
  | _ => true

/-- A line of a document. -/
structure Line where
  /-- How many lists that are broken into lines are open around it. -/
  depth : Nat
  /-- What stands on it. -/
  text : List Char
  deriving DecidableEq, Repr

/-- The characters of a line: two spaces for each list around it, its text and a
line break. -/
def Line.chars (line : Line) : List Char :=
  List.replicate (2 * line.depth) ' ' ++ (line.text ++ ['\n'])

mutual

/-- The lines of an expression at some depth.  A list that takes several lines
opens with its leading atoms and closes on a line of its own. -/
def lines (depth : Nat) : SExpr α → List Line
  | .list xs =>
      if staysInline (.list xs) then [⟨depth, inlineChars (.list xs)⟩]
      else
        ⟨depth, '(' :: inlineItems (xs.takeWhile fun x => !x.isList)⟩ ::
          (memberLines (depth + 1) false xs ++ [⟨depth, [')']⟩])
  | e => [⟨depth, inlineChars e⟩]

/-- The lines of the members of a list from its first nested list on; `broken`
says that this one has been passed. -/
def memberLines (depth : Nat) (broken : Bool) : List (SExpr α) → List Line
  | [] => []
  | x :: xs =>
      if broken || x.isList then lines depth x ++ memberLines depth true xs
      else memberLines depth false xs

end

/-- A document in its indented form; every line ends in a line break. -/
def documentText (e : SExpr α) : String := String.ofList ((lines 0 e).flatMap Line.chars)

end SExpr

end Schematic
