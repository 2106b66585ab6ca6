/-!
# S-expression documents

Schematics and netlists are written as S-expressions: nested lists whose atoms
are bare symbols, quoted strings and numbers.  A list that starts with a symbol
is a *record*, and the symbol is its head.

## Main definitions

* `SExpr` — documents.
* `SExpr.record`, `SExpr.field` — records, and records of one string.
* `SExpr.head?`, `SExpr.items`, `SExpr.child?`, `SExpr.children` — access to
  the parts of a record.
-/

namespace Schematic

/-- An S-expression whose number atoms are of type `α`. -/
inductive SExpr (α : Type) where
  /-- A parenthesised list. -/
  | list (items : List (SExpr α))
  /-- A bare word. -/
  | symbol (text : String)
  /-- A quoted string. -/
  | string (text : String)
  /-- A number. -/
  | number (value : α)
  deriving BEq, Repr, Inhabited

namespace SExpr

variable {α : Type}

/-- The list with a symbol in front. -/
def record (head : String) (items : List (SExpr α)) : SExpr α := .list (.symbol head :: items)

/-- The record of one string. -/
def field (head value : String) : SExpr α := record head [.string value]

/-- The record of one symbol. -/
def flag (head value : String) : SExpr α := record head [.symbol value]

/-- Whether an expression is a list. -/
def isList : SExpr α → Bool
  | .list _ => true
  | _ => false

/-- The symbol a record starts with. -/
def head? : SExpr α → Option String
  | .list (.symbol s :: _) => some s
  | _ => none

/-- The members of a list, its head included; an atom has none. -/
def items : SExpr α → List (SExpr α)
  | .list xs => xs
  | _ => []

/-- The text of a string or a symbol. -/
def text? : SExpr α → Option String
  | .string s => some s
  | .symbol s => some s
  | _ => none

/-- The value of a number. -/
def number? : SExpr α → Option α
  | .number v => some v
  | _ => none

/-- The member after the head, when it is a string or a symbol. -/
def value? (e : SExpr α) : Option String := e.items[1]?.bind text?

/-- The members that are records with the given head. -/
def children (head : String) (e : SExpr α) : List (SExpr α) :=
  e.items.filter fun c => c.head? == some head

/-- The first member that is a record with the given head. -/
def child? (head : String) (e : SExpr α) : Option (SExpr α) :=
  e.items.find? fun c => c.head? == some head

@[simp] theorem items_list (xs : List (SExpr α)) : (SExpr.list xs).items = xs := rfl

@[simp] theorem head?_record (head : String) (xs : List (SExpr α)) :
    (record head xs).head? = some head := rfl

@[simp] theorem items_record (head : String) (xs : List (SExpr α)) :
    (record head xs).items = .symbol head :: xs := rfl

end SExpr

end Schematic
