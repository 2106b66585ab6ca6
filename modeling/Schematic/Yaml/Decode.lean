import Schematic.Number.Scalar
import Schematic.Yaml.Node

/-!
# Values of YAML documents

How texts, numbers, choices, lists and records are taken from a document.  A
plain scalar can be a number, a truth value or nothing at all, while every
scalar is also a text.  A record takes its fields from a mapping: other keys are
passed over, and a field may not be given twice.  Where nothing is written
stands a record without fields or a list without items.

## Main definitions

* `Yaml.Node.text?`, `Yaml.Node.bool?`, `Yaml.Node.nat?`, `Yaml.Node.scalar?` —
  single values.
* `Yaml.Node.optional?`, `Yaml.Node.list?` — values that may be missing, lists.
* `Yaml.Fields`, `Yaml.Node.fields?` — records.
-/

namespace Schematic.Yaml

namespace Node

/-- The text of a scalar. -/
def text? : Node → Option String
  | .scalar _ text => some text
  | _ => none

/-- Whether nothing is written. -/
def isEmpty : Node → Bool
  | .scalar true "" => true
  | _ => false

/-- Whether a node says that there is no value. -/
def isNull : Node → Bool
  | .scalar true text => ["", "~", "null", "Null", "NULL"].contains text
  | _ => false

/-- A value that may be missing. -/
def optional? {β : Type} (f : Node → Option β) (n : Node) : Option (Option β) :=
  if n.isNull then some none else (f n).map some

/-- The items of a sequence. -/
def items? : Node → Option (List Node)
  | .sequence items => some items
  | n => if n.isEmpty then some [] else none

/-- A list of values. -/
def list? {β : Type} (f : Node → Option β) (n : Node) : Option (List β) :=
  n.items?.bind (·.mapM f)

/-- A truth value. -/
def bool? : Node → Option Bool
  | .scalar true text =>
      if ["true", "True", "TRUE"].contains text then some true
      else if ["false", "False", "FALSE"].contains text then some false
      else none
  | _ => none

/-- A whole number from its digits in a base; at least one digit. -/
def natOfDigits? (base : Nat) (ds : List Char) : Option Nat :=
  if ds.isEmpty then none
  else ds.foldl (fun n c => do
    let n ← n
    let d ← hexDigitValue? c
    if d < base then some (base * n + d) else none) (some 0)

/-- Whether digits start with a zero that is not the whole number. -/
def hasLeadingZero (ds : List Char) : Bool :=
  1 < ds.length && ds.head? == some '0' && ds.all Char.isDigit

/-- A whole number from its text without a sign: decimal without leading zeros,
hexadecimal, octal or binary. -/
def magnitude? : List Char → Option Nat
  | '0' :: 'x' :: ds => natOfDigits? 16 ds
  | '0' :: 'o' :: ds => natOfDigits? 8 ds
  | '0' :: 'b' :: ds => natOfDigits? 2 ds
  | ds => if hasLeadingZero ds then none else natOfDigits? 10 ds

/-- A whole number from its text; a plus sign may come first. -/
def natOfText? : List Char → Option Nat
  | '+' :: rest => magnitude? rest
  | cs => magnitude? cs

/-- The magnitude of a whole number that is written with a minus sign. -/
def negativeOfText? : List Char → Option Nat
  | '-' :: rest => magnitude? rest
  | _ => none

/-- A whole number up to `largest`. -/
def nat? (largest : Nat) : Node → Option Nat
  | .scalar true text =>
      (natOfText? text.toList).bind fun n => if n ≤ largest then some n else none
  | _ => none

/-- What the text of a plain scalar denotes as a number.  Infinities and
not-a-number are written with a leading point. -/
def numberOfText? (text : String) : Option NumberText :=
  if [".inf", ".Inf", ".INF", "+.inf", "+.Inf", "+.INF"].contains text then some (.infinite false)
  else if ["-.inf", "-.Inf", "-.INF"].contains text then some (.infinite true)
  else if [".nan", ".NaN", ".NAN"].contains text then some .nan
  else (Decimal.parse? text.toList).filter fun
    | .finite _ => true
    | _ => false

/-- A coordinate; a decimal beyond its range is refused. -/
def scalar? {α : Type} [Scalar α] : Node → Option α
  | .scalar true text =>
      match numberOfText? text with
      | some (.finite d) =>
          let v : α := Scalar.ofDecimal d
          if Scalar.isFinite v then some v else none
      | some other => some (Scalar.ofNumber other)
      | none => none
  | _ => none

/-- A list of `n` values. -/
def vector? {β : Type} (n : Nat) (f : Node → Option β) (node : Node) : Option (List β) :=
  (node.list? f).bind fun vs => if vs.length = n then some vs else none

end Node

/-- The fields of a record, by name. -/
structure Fields where
  /-- The names with their values. -/
  pairs : List (String × Node)

namespace Fields

/-- A field that has to be there. -/
def required? {β : Type} (fs : Fields) (name : String) (f : Node → Option β) : Option β :=
  (fs.pairs.lookup name).bind f

/-- A field with a value to take when it is missing. -/
def withDefault? {β : Type} (fs : Fields) (name : String) (f : Node → Option β) (missing : β) :
    Option β :=
  match fs.pairs.lookup name with
  | some n => f n
  | none => some missing

/-- A field that may be missing or say that there is no value. -/
def optional? {β : Type} (fs : Fields) (name : String) (f : Node → Option β) :
    Option (Option β) :=
  fs.withDefault? name (Node.optional? f) none

end Fields

namespace Node

/-- The pairs of a mapping whose keys are scalars. -/
def pairs? : Node → Option (List (String × Node))
  | .mapping pairs => pairs.mapM fun p => p.1.text?.map fun key => (key, p.2)
  | n => if n.isEmpty then some [] else none

/-- The fields of a record.  None of the known ones may be given twice. -/
def fields? (known : List String) (n : Node) : Option Fields := do
  let pairs ← n.pairs?
  let given := (pairs.map Prod.fst).filter known.contains
  if given.eraseDups.length = given.length then some ⟨pairs⟩ else none

end Node

end Schematic.Yaml
