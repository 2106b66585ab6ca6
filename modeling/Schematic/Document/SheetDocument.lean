import Schematic.Circuit.NetlistDocument
import Schematic.Document.IdMap
import Schematic.Drawing.Sheet
import Schematic.Symbol.Basic

/-!
# Sheets as documents

A sheet is written as one document that also defines the symbols it uses.  Every
item carries an identifier, which is looked up under a key made from its name,
so the document is a function of the sheet and of the identifiers.

## Main definitions

* `libraryRecord` — the definition of a symbol.
* `Sheet.document` — the document of a sheet.
* `Sheet.keys` — the keys of all identifiers in it.
* `Sheet.write` — the text of the document, and the identifiers to keep.
-/

namespace Schematic

open Scalar

variable {α : Type} [Scalar α]

/-! ### Parts of records -/

/-- The version of the file format. -/
def formatVersion : α := 20231120

/-- The size of letters. -/
def fontSize : α := 1.27

/-- The distance of a text from its symbol. -/
def labelOffset : α := 5.08

/-- A record of numbers. -/
def numbers (head : String) (values : List α) : SExpr α := .record head (values.map .number)

/-- A placement. -/
def placementRecord (x y rotation : α) : SExpr α := numbers "at" [x, y, rotation]

omit [Scalar α] in
/-- An identifier. -/
def uuidRecord (id : String) : SExpr α := .flag "uuid" id

/-- The looks of a text. -/
def effectsRecord (hide : Bool) : SExpr α :=
  .record "effects" <|
    .record "font" [numbers "size" [fontSize, fontSize]] ::
      if hide then [.symbol "hide"] else []

/-- A text that belongs to a symbol. -/
def propertyRecord (key value : String) (x y : α) (hide : Bool) : SExpr α :=
  .record "property"
    [.string key, .string value, placementRecord x y 0, effectsRecord hide]

/-- The looks of a line. -/
def strokeRecord (width : α) : SExpr α :=
  .record "stroke" [numbers "width" [width], .flag "type" "default"]

omit [Scalar α] in
/-- A choice. -/
def yesNo (head : String) (yes : Bool) : SExpr α := .flag head (if yes then "yes" else "no")

/-! ### Definitions of symbols -/

/-- The name of a symbol without its library. -/
def shortName (id : String) : String :=
  String.ofList (id.toList.reverse.takeWhile (· ≠ ':')).reverse

/-- The outline of a body; definitions have `y` pointing upward. -/
def bodyRecord (name : String) (body : Rect α) : SExpr α :=
  .record "symbol"
    [.string (name ++ "_0_1"),
     .record "rectangle"
      [numbers "start" [body.x, -body.y],
       numbers "end" [body.right, -body.bottom],
       strokeRecord 0.254,
       .record "fill" [.flag "type" "none"]]]

/-- A pin of a definition. -/
def symbolPinRecord (power : Bool) (p : SymbolPin α) : SExpr α :=
  .record "pin"
    [.symbol (if power then "power_in" else "passive"), .symbol "line",
     placementRecord p.x p.y p.angle,
     numbers "length" [p.length],
     .record "name" [.string p.name, effectsRecord false],
     .record "number" [.string p.number, effectsRecord false]]

/-- The definition of a symbol; that of an unknown one is empty. -/
def libraryRecord (id : String) (symbol : Option (Symbol α)) : SExpr α :=
  let name := shortName id
  let power := symbol.any (·.power)
  .record "symbol" <|
    .string id ::
      (if power then [.record "power" []] else []) ++
      [yesNo "in_bom" !power, yesNo "on_board" !power] ++
      match symbol with
      | some s =>
          (s.body.map (bodyRecord name)).toList ++
            [.record "symbol" (.string (name ++ "_1_1") :: s.pins.map (symbolPinRecord power))]
      | none => []

/-! ### Items -/

/-- The reference designator of an item on the sheet of a project. -/
def instancesRecord (project sheetId reference : String) : SExpr α :=
  .record "instances"
    [.record "project"
      [.string project,
       .record "path"
        [.string ("/" ++ sheetId), .field "reference" reference, numbers "unit" [1]]]]

/-- A wire. -/
def wireRecord (idOf : String → String) (w : Wire α) : SExpr α :=
  .record "wire"
    [.record "pts" [numbers "xy" [w.a.x, w.a.y], numbers "xy" [w.b.x, w.b.y]],
     strokeRecord 0,
     uuidRecord (idOf w.key.text)]

/-- The flag of an unconnected pin. -/
def noConnectRecord (idOf : String → String) (f : NoConnectFlag α) : SExpr α :=
  .record "no_connect" [placementRecord f.point.x f.point.y 0, uuidRecord (idOf f.key)]

omit [Scalar α] in
/-- A pin of an item. -/
def pinRecord (number id : String) : SExpr α :=
  .record "pin" [.string number, uuidRecord id]

namespace SymbolInstance

omit [Scalar α] in
/-- The key of a pin. -/
def pinKey (s : SymbolInstance α) (number : String) : String := s.reference ++ "_" ++ number

/-- The symbol of a component. -/
def record (project sheetId : String) (idOf : String → String) (s : SymbolInstance α) : SExpr α :=
  let x := s.placement.x
  let y := s.placement.y
  .record "symbol" <|
    [.field "lib_id" s.symbol,
     placementRecord x y s.placement.rotation,
     numbers "unit" [1],
     yesNo "in_bom" true,
     yesNo "on_board" true,
     yesNo "dnp" false,
     uuidRecord (idOf s.reference),
     propertyRecord "Reference" s.reference x (y - labelOffset) false,
     propertyRecord "Value" s.value x (y + labelOffset) false,
     propertyRecord "Footprint" s.footprint x (y + 2 * labelOffset) true] ++
    s.pins.map (fun n => pinRecord n (idOf (s.pinKey n))) ++
    [instancesRecord project sheetId s.reference]

end SymbolInstance

namespace PowerSymbol

omit [Scalar α] in
/-- The key of the pin. -/
def pinKey (p : PowerSymbol α) : String := p.key ++ "_1"

/-- A power symbol. -/
def record (project sheetId : String) (idOf : String → String) (reference : String)
    (p : PowerSymbol α) : SExpr α :=
  let x := p.placement.x
  let y := p.placement.y
  .record "symbol"
    [.field "lib_id" p.symbol,
     placementRecord x y p.placement.rotation,
     numbers "unit" [1],
     yesNo "in_bom" false,
     yesNo "on_board" false,
     yesNo "dnp" false,
     uuidRecord (idOf p.key),
     propertyRecord "Reference" reference x (y - labelOffset) true,
     propertyRecord "Value" p.value x (y + labelOffset) false,
     pinRecord "1" (idOf p.pinKey),
     instancesRecord project sheetId reference]

end PowerSymbol

/-! ### The document -/

/-- The reference designator of the `i`th power symbol. -/
def powerReference (i : Nat) : String := "#PWR" ++ String.ofList (paddedDigits 2 (i + 1))

namespace Sheet

/-- The key of the sheet itself. -/
def sheetKey : String := "sheet"

omit [Scalar α] in
/-- The symbols used on a sheet, in ascending order. -/
def usedSymbols (s : Sheet α) : List String :=
  let ids := s.symbols.map (·.symbol) ++ s.power.map (·.symbol)
  (Table.ofList (ids.map fun id => (id, ()))).entries.map Prod.fst

/-- The document of a sheet; `idOf` tells the identifier of a key. -/
def document (s : Sheet α) (symbols : SymbolSource α) (idOf : String → String) : SExpr α :=
  let sheetId := idOf sheetKey
  .record "kicad_sch" <|
    [numbers "version" [formatVersion],
     .field "generator" generatorName,
     uuidRecord sheetId,
     .field "paper" s.paper,
     .record "lib_symbols" (s.usedSymbols.map fun id => libraryRecord id (symbols id))] ++
    s.wires.map (wireRecord idOf) ++
    s.noConnects.map (noConnectRecord idOf) ++
    s.symbols.map (SymbolInstance.record s.name sheetId idOf) ++
    s.power.mapIdx (fun i p => p.record s.name sheetId idOf (powerReference i)) ++
    [.record "sheet_instances" [.record "path" [.string "/", .field "page" "1"]]]

/-- The keys of all identifiers in the document. -/
def keys (s : Sheet α) : List String :=
  sheetKey :: s.wires.map (fun w => w.key.text) ++ s.noConnects.map (·.key) ++
    s.symbols.flatMap (fun i => i.reference :: i.pins.map i.pinKey) ++
    s.power.flatMap (fun p => [p.key, p.pinKey])

/-- The text of the document, and the identifiers to keep for the next time. -/
def write (s : Sheet α) (symbols : SymbolSource α) (mint : String → String) (ids : IdMap) :
    String × IdMap :=
  ((s.document symbols (ids.idFor mint)).documentText, ids.cover mint s.keys)

end Sheet

end Schematic
