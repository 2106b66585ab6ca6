import Schematic.Symbol.Definition
import Schematic.Table

/-!
# Symbol libraries

A library is made from definitions in two passes.  A depth-first walk from every
definition to its bases puts the bases first, and then every symbol is built on
that of its base, which is finished by then.

## Main definitions

* `SymbolError` — what can be wrong with a chain of bases.
* `SymbolDef.visit`, `SymbolDef.ordered` — the walk, and the order that it finds.
* `SymbolDef.derive` — one step of building a symbol up.
* `SymbolLibrary.ofDefs` — the library of a list of definitions.
-/

namespace Schematic

/-- What can be wrong with a symbol's chain of bases. -/
inductive SymbolError where
  /-- A symbol extends one that is not defined. -/
  | unknownBase (symbol base : String)
  /-- A symbol extends itself by way of its bases. -/
  | inheritanceCycle (symbol : String)
  deriving DecidableEq, Repr, Inhabited

/-- The wording of an error. -/
def SymbolError.message : SymbolError → String
  | .unknownBase symbol base => "Symbol " ++ symbol ++ " extends unknown symbol " ++ base
  | .inheritanceCycle symbol => "Symbol inheritance cycle through " ++ symbol

variable {α : Type}

namespace SymbolDef

/-- How far a walk over definitions has come. -/
structure Walk (α : Type) where
  /-- The symbols on the way to the one that is visited, last first. -/
  pending : List String := []
  /-- The symbols that are finished. -/
  seen : List String := []
  /-- Their definitions, last first. -/
  order : List (SymbolDef α) := []

/-- The walk goes on to the base of a symbol. -/
def Walk.enter (w : Walk α) (id : String) : Walk α := { w with pending := id :: w.pending }

/-- The walk is done with a symbol. -/
def Walk.finish (w : Walk α) (d : SymbolDef α) : Walk α :=
  { pending := w.pending.erase d.id, seen := d.id :: w.seen, order := d :: w.order }

/-- Go through a symbol after its base, unless that has been done. -/
def visit (defs : Table (SymbolDef α)) :
    Nat → SymbolDef α → Walk α → Except SymbolError (Walk α)
  | 0, d, _ => .error (.inheritanceCycle d.id)
  | fuel + 1, d, w =>
      if w.seen.contains d.id then .ok w
      else if w.pending.contains d.id then .error (.inheritanceCycle d.id)
      else
        match d.base with
        | none => .ok ((w.enter d.id).finish d)
        | some base =>
            match defs.find? base with
            | none => .error (.unknownBase d.id base)
            | some b => (visit defs fuel b (w.enter d.id)).map (·.finish d)

/-- The definitions with every base before those that extend it.  It takes one step more
than there are symbols on the longest way. -/
def ordered (defs : Table (SymbolDef α)) (fuel : Nat) :
    Except SymbolError (List (SymbolDef α)) := do
  let walk ← defs.entries.foldlM (fun w e => visit defs fuel e.2 w) {}
  pure walk.order.reverse

/-- Put a pin instead of the one with its number, or at the end. -/
def overridePin (p : SymbolPin α) : List (SymbolPin α) → List (SymbolPin α)
  | [] => [p]
  | q :: qs => if q.number == p.number then p :: qs else q :: overridePin p qs

/-- The pin of a definition. -/
def pinOf (p : SymbolPinDef α) : SymbolPin α :=
  { number := p.number, name := p.name, x := p.x, y := p.y, angle := p.angle, length := p.length }

/-- The symbol that a definition without a base starts from. -/
def blank (id : String) : Symbol α := { id, pins := [], body := none, power := false }

variable [Scalar α]

/-- The symbol of a definition, given that of its base. -/
def derive (d : SymbolDef α) (base : Symbol α) : Symbol α :=
  { id := d.id
    pins := (d.pins.map pinOf).foldl (fun pins p => overridePin p pins) base.pins
    body := match d.body with
      | some (a, b) => some (.ofCorners ⟨a.x, -a.y⟩ ⟨b.x, -b.y⟩)
      | none => base.body
    power := base.power || d.power }

end SymbolDef

/-- Symbols sorted by name. -/
abbrev SymbolLibrary (α : Type) := Table (Symbol α)

namespace SymbolLibrary

/-- The symbols of a library. -/
def source (library : SymbolLibrary α) : SymbolSource α := library.find?

/-- The definitions by name; of those with one name the last counts. -/
def byId (defs : List (SymbolDef α)) : Table (SymbolDef α) :=
  .ofList (defs.map fun d => (d.id, d))

/-- Some definitions with others put over them. -/
def overlay (defs extra : List (SymbolDef α)) : List (SymbolDef α) :=
  (defs.filter fun d => !extra.any (·.id == d.id)) ++ extra

variable [Scalar α]

/-- Add the symbol of a definition, built on that of its base. -/
def add (library : SymbolLibrary α) (d : SymbolDef α) : SymbolLibrary α :=
  library.insert d.id (d.derive ((d.base.bind library.find?).getD (SymbolDef.blank d.id)))

/-- The library of a list of definitions. -/
def ofDefs (defs : List (SymbolDef α)) : Except SymbolError (SymbolLibrary α) := do
  let order ← SymbolDef.ordered (byId defs) ((byId defs).size + 1)
  pure (order.foldl add ∅)

end SymbolLibrary

end Schematic
