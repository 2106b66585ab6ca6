import Schematic.Number.Decimal
import Schematic.Text.Hex

/-!
# Writing JSON

Reports and identifier maps are kept as JSON: objects with one member a line,
indented by two spaces for each level of nesting.

## Main definitions

* `JsonValue` — texts, counts, lists and objects.
* `JsonValue.text` — the indented form.
-/

namespace Schematic

/-- What reports are made of. -/
inductive JsonValue where
  /-- A text. -/
  | string (text : String)
  /-- A count. -/
  | number (count : Nat)
  /-- A list. -/
  | array (items : List JsonValue)
  /-- Members by name, in the order they are written. -/
  | object (members : List (String × JsonValue))
  deriving Repr, Inhabited

namespace JsonValue

/-- A character inside quotes.  Only quotes, backslashes and control characters
are written in another form. -/
def escapeChar (c : Char) : List Char :=
  if c = '"' then ['\\', '"']
  else if c = '\\' then ['\\', '\\']
  else if c = '\n' then ['\\', 'n']
  else if c = '\r' then ['\\', 'r']
  else if c = '\t' then ['\\', 't']
  else if c = '\x08' then ['\\', 'b']
  else if c = '\x0c' then ['\\', 'f']
  else if c.toNat < 32 then ['\\', 'u', '0', '0', hexDigit (c.toNat / 16), hexDigit c.toNat]
  else [c]

/-- A text between quotes. -/
def quote (text : String) : List Char := '"' :: text.toList.flatMap escapeChar ++ ['"']

/-- The start of a line at some nesting depth. -/
def newLine (depth : Nat) : List Char := '\n' :: List.replicate (2 * depth) ' '

mutual

/-- The indented form at some nesting depth. -/
def chars (depth : Nat) : JsonValue → List Char
  | .string text => quote text
  | .number count => (digitText count).toList
  | .array [] => ['[', ']']
  | .array (item :: items) =>
      '[' :: newLine (depth + 1) ++ chars (depth + 1) item ++ itemChars (depth + 1) items ++
        newLine depth ++ [']']
  | .object [] => ['{', '}']
  | .object ((name, value) :: members) =>
      '{' :: newLine (depth + 1) ++ quote name ++ [':', ' '] ++ chars (depth + 1) value ++
        memberChars (depth + 1) members ++ newLine depth ++ ['}']

/-- The items of a list after the first one. -/
def itemChars (depth : Nat) : List JsonValue → List Char
  | [] => []
  | item :: items => ',' :: newLine depth ++ chars depth item ++ itemChars depth items

/-- The members of an object after the first one. -/
def memberChars (depth : Nat) : List (String × JsonValue) → List Char
  | [] => []
  | (name, value) :: members =>
      ',' :: newLine depth ++ quote name ++ [':', ' '] ++ chars depth value ++
        memberChars depth members

end

/-- The indented form. -/
def text (v : JsonValue) : String := String.ofList (chars 0 v)

end JsonValue

end Schematic
