import Schematic.Drawing.Generation
import Schematic.Json.Value
import Schematic.Table

/-!
# Reports

A report sums up one run: what was drawn, what was found, and which files were
written.

## Main definitions

* `Report`, `Report.ofGeneration` — the reports.
* `Report.errorCounts` — how many findings there are of each category.
* `Report.json`, `Report.summary` — the stored form, and the form for people.
-/

namespace Schematic

/-- The outcome of a run. -/
structure Report where
  /-- The name of the circuit. -/
  circuit : String
  /-- The file it was read from. -/
  source : String
  /-- The number of components, markers left out. -/
  components : Nat
  /-- The number of nets. -/
  nets : Nat
  /-- The number of symbols drawn. -/
  symbols : Nat
  /-- The number of wires drawn. -/
  wires : Nat
  /-- The number of power symbols drawn. -/
  powerSymbols : Nat
  /-- The number of flags on unconnected pins. -/
  noConnects : Nat
  /-- The number of connections drawn as direct lines. -/
  fallbacks : Nat
  /-- The texts of the findings. -/
  errors : List String
  /-- The files that were written. -/
  artifacts : List String
  deriving DecidableEq, Repr, Inhabited

namespace Report

/-- The report on a drawing. -/
def ofGeneration {α : Type} [Scalar α] (source : String) (g : Generation α) : Report :=
  { circuit := g.netlist.name
    source
    components := g.netlist.components.toList.countP fun c => !c.marker
    nets := g.netlist.nets.size
    symbols := g.sheet.symbols.length
    wires := g.sheet.wires.length
    powerSymbols := g.sheet.power.length
    noConnects := g.sheet.noConnects.length
    fallbacks := g.sheet.routes.countP (·.fallback)
    errors := g.findings.map (·.text)
    artifacts := [] }

/-- Whether nothing was found. -/
def isClean (r : Report) : Bool := r.errors.isEmpty

/-! ### Categories -/

/-- The category that a finding's text starts with. -/
def categoryOf? (error : String) : Option Category :=
  Category.all.find? fun c => ("[" ++ c.name ++ "]").toList.isPrefixOf error.toList

/-- The name of a finding's category. -/
def categoryName (error : String) : String := ((categoryOf? error).map (·.name)).getD "other"

/-- Count one more finding. -/
def countError (counts : Table Nat) (error : String) : Table Nat :=
  counts.insert (categoryName error) ((counts.find? (categoryName error)).getD 0 + 1)

/-- How many findings there are of each category that occurs. -/
def errorCounts (r : Report) : Table Nat := r.errors.foldl countError ∅

/-! ### Written forms -/

/-- The stored form. -/
def json (r : Report) : JsonValue :=
  .object
    [("circuit", .string r.circuit),
     ("source", .string r.source),
     ("components", .number r.components),
     ("nets", .number r.nets),
     ("symbols", .number r.symbols),
     ("wires", .number r.wires),
     ("power_symbols", .number r.powerSymbols),
     ("no_connects", .number r.noConnects),
     ("fallbacks", .number r.fallbacks),
     ("errors", .array (r.errors.map .string)),
     ("artifacts", .array (r.artifacts.map .string))]

/-- A line of sixty equal characters. -/
def rule (c : Char) : String := String.ofList (List.replicate 60 c)

/-- The counts of the categories in one line. -/
def countsText (r : Report) : String :=
  ", ".intercalate (r.errorCounts.entries.map fun e => e.1 ++ ": " ++ digitText e.2)

/-- The lines of the form for people. -/
def summaryLines (r : Report) : List String :=
  ["", rule '═', " NETWEAVE · " ++ r.circuit ++ " ", rule '═',
   "Source:     " ++ r.source,
   "Parts:      " ++ digitText r.components ++ " components, " ++ digitText r.nets ++ " nets",
   "Drawn:      " ++ digitText r.symbols ++ " symbols, " ++ digitText r.wires ++ " wires, " ++
     digitText r.powerSymbols ++ " power symbols, " ++ digitText r.noConnects ++ " no-connects"] ++
  (if 0 < r.fallbacks then ["Fallbacks:  " ++ digitText r.fallbacks] else []) ++
  r.artifacts.map (fun path => "  ✓ " ++ path) ++
  [rule '─'] ++
  if r.isClean then ["CLEAN"]
  else
    (digitText r.errors.length ++ " PROBLEMS (" ++ r.countsText ++ ")") ::
      r.errors.map fun e => "  ✗ " ++ e

/-- The form for people. -/
def summary (r : Report) : String := String.join (r.summaryLines.map (· ++ "\n"))

end Report

end Schematic
