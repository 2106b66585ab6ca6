import Schematic.Circuit.NetlistDocument
import Schematic.Circuit.Replay
import Schematic.Document.SheetDocument
import Schematic.Number.Binary64.Coordinate
import Schematic.Run.Files
import Schematic.Run.Report
import Schematic.Symbol.Builtin

/-!
# Runs

A run reads a circuit, a configuration and symbols from files, draws the
circuit, and writes the schematic, the netlist and the identifiers that were
used.  What was found wrong with a drawing does not keep it from being written.

## Main definitions

* `RunOptions` — what is asked of a run.
* `RunError` — why a run fails.
* `RunSetup`, `RunSetup.load` — what a run has read.
* `RunSetup.validate`, `RunSetup.synthesize` — a run without and with output.
* `writeDefaultConfig` — a configuration file to start from.
-/

namespace Schematic

/-- What is asked of a run. -/
structure RunOptions where
  /-- The file of the circuit. -/
  circuit : String
  /-- The directory that is written to. -/
  outDir : String
  /-- The file of the configuration, if there is one. -/
  config : Option String := none
  /-- The file of further symbols. -/
  symbols : Option String := none
  /-- The file of the identifiers. -/
  ids : Option String := none
  /-- Whether wires are left out. -/
  noWires : Bool := false
  /-- Whether symbols are left out. -/
  noSymbols : Bool := false
  deriving DecidableEq, Repr, Inhabited

/-- The file in which identifiers are kept when none is given. -/
def defaultIdsName : String := "ids.json"

/-- The file in which identifiers are kept. -/
def RunOptions.idsPath (o : RunOptions) : String := o.ids.getD (joinPath o.outDir defaultIdsName)

/-! ### Errors -/

/-- Why something cannot be taken from a file. -/
inductive LoadError (ε : Type) where
  /-- The file cannot be read. -/
  | unreadable (failure : IoFailure)
  /-- Its text does not have the right form. -/
  | malformed
  /-- What it says is wrong. -/
  | invalid (error : ε)
  deriving DecidableEq, Repr

/-- Why a run fails. -/
inductive RunError where
  /-- The circuit cannot be used. -/
  | circuit (error : LoadError CircuitError)
  /-- The configuration cannot be used. -/
  | config (error : LoadError Empty)
  /-- The symbols cannot be used. -/
  | symbols (error : LoadError SymbolError)
  /-- The identifiers cannot be used. -/
  | ids (error : LoadError Empty)
  /-- A file cannot be written. -/
  | output (failure : IoFailure)
  deriving DecidableEq, Repr

/-- The wording of a load error: what kind of file it is, and what the texts of
its errors are. -/
def LoadError.message {ε : Type} (unreadable form : String) (invalid : ε → String) :
    LoadError ε → String
  | .unreadable failure => unreadable ++ ": " ++ failure.message
  | .malformed => "Failed to parse " ++ form
  | .invalid error => invalid error

/-- The wording of what is wrong with a file, without saying which one. -/
def RunError.detail : RunError → String
  | .circuit e => e.message "Failed to read circuit file" "YAML" CircuitError.message
  | .config e => e.message "Failed to read config file" "YAML" nofun
  | .symbols e => e.message "Failed to read symbol library" "YAML" SymbolError.message
  | .ids e => e.message "Failed to access id map" "id map" nofun
  | .output failure => failure.message

/-- The wording of an error. -/
def RunError.message (e : RunError) : String :=
  (match e with
    | .circuit _ => "Failed to load circuit: "
    | .config _ => "Failed to load config: "
    | .symbols _ => "Failed to load symbols: "
    | .ids _ => "Id map error: "
    | .output _ => "IO error: ") ++ e.detail

/-! ### Reading -/

/-- What a run has read. -/
structure RunSetup where
  /-- What is asked of it. -/
  options : RunOptions
  /-- The settings. -/
  config : Config Float
  /-- The symbols. -/
  library : SymbolLibrary Float
  /-- The circuit. -/
  circuit : CircuitDef Float

/-- Take something from the text of a file. -/
def Files.load {β ε : Type} (f : Files) (path : String) (read? : String → Option β) :
    Except (LoadError ε) β :=
  match f.read path with
  | .error failure => .error (.unreadable failure)
  | .ok text =>
      match read? text with
      | some value => .ok value
      | none => .error .malformed

/-- The settings in a file, or the defaults when it is not there. -/
def loadConfig (f : Files) (path : String) : Except (LoadError Empty) (Config Float) :=
  if f.contains path then f.load path Config.read? else .ok default

/-- The identifiers in a file, or none when it is not there. -/
def loadIds (f : Files) (path : String) : Except (LoadError Empty) IdMap :=
  if f.contains path then f.load path IdMap.read? else .ok ∅

/-- The builtin symbols with those of a file put over them. -/
def loadSymbols (f : Files) (path : String) :
    Except (LoadError SymbolError) (SymbolLibrary Float) := do
  let defs ← f.load path SymbolDef.readList?
  (SymbolLibrary.load defs).mapError .invalid

namespace RunSetup

/-- Leave out what is not to be drawn. -/
def restrict (o : RunOptions) (c : Config Float) : Config Float :=
  { c with
    drawing :=
      { c.drawing with
        emitWires := c.drawing.emitWires && !o.noWires
        emitSymbols := c.drawing.emitSymbols && !o.noSymbols } }

/-- Read the settings, the symbols and the circuit, in this order. -/
def load (f : Files) (o : RunOptions) : Except RunError RunSetup := do
  let config ← match o.config with
    | some path => (loadConfig f path).mapError .config
    | none => .ok default
  let library ← match o.symbols with
    | some path => (loadSymbols f path).mapError .symbols
    | none => .ok SymbolLibrary.builtin
  let circuit ← (f.load o.circuit CircuitDef.read?).mapError .circuit
  .ok { options := o, config := restrict o config, library, circuit }

/-- Draw the circuit. -/
def generate (s : RunSetup) : Except RunError (Generation Float) :=
  match s.circuit.toNetlist s.library.source.pinNumber? with
  | .ok netlist => .ok (netlist.generate s.library.source s.config)
  | .error e => .error (.circuit (.invalid e))

/-- Draw the circuit and report on it. -/
def validate (s : RunSetup) : Except RunError Report :=
  s.generate.map (Report.ofGeneration s.options.circuit)

end RunSetup

/-! ### Writing -/

/-- Steps of a run.  Files that were written before an error stay. -/
abbrev RunM (β : Type) := EStateM RunError Files β

namespace RunM

/-- Something that may be an error. -/
def ofExcept {β : Type} : Except RunError β → RunM β
  | .ok v => pure v
  | .error e => throw e

/-- Change the files. -/
def output (change : Files → Except IoFailure Files) : RunM Unit := do
  match change (← get) with
  | .ok files => set files
  | .error failure => throw (.output failure)

/-- Make a directory. -/
def createDirectories (path : String) : RunM Unit := output (·.createDirectories path)

/-- Write a file. -/
def write (path text : String) : RunM Unit := output (·.write path text)

end RunM

/-- The schematic file of a circuit. -/
def schematicPath (outDir name : String) : String := joinPath outDir (name ++ ".kicad_sch")

/-- The netlist file of a circuit. -/
def netlistPath (outDir name : String) : String := joinPath outDir (name ++ ".net")

/-- Draw the circuit, write the schematic, the netlist and the identifiers, and
report on them.  New identifiers come from `mint`. -/
def RunSetup.synthesize (s : RunSetup) (mint : String → String) : RunM Report := do
  let g ← RunM.ofExcept s.generate
  let outDir := s.options.outDir
  let idsPath := s.options.idsPath
  RunM.createDirectories outDir
  let ids ← RunM.ofExcept ((loadIds (← get) idsPath).mapError .ids)
  let (text, ids) := g.sheet.write s.library.source mint ids
  let schematic := schematicPath outDir g.netlist.name
  let netlist := netlistPath outDir g.netlist.name
  RunM.write schematic text
  RunM.write netlist g.netlist.documentText
  RunM.createDirectories (parentPath idsPath)
  match (← get).write idsPath ids.text with
  | .ok files => set files
  | .error failure => throw (.ids (.unreadable failure))
  pure { Report.ofGeneration s.options.circuit g with artifacts := [schematic, netlist, idsPath] }

/-- Write the default settings to a file. -/
def writeDefaultConfig (path : String) : RunM Unit := do
  RunM.createDirectories (parentPath path)
  match (← get).write path (Config.text default) with
  | .ok files => set files
  | .error failure => throw (.config (.unreadable failure))

/-- Write a report to a file. -/
def Report.save (r : Report) (path : String) : RunM Unit := do
  RunM.createDirectories (parentPath path)
  RunM.write path r.json.text

end Schematic
