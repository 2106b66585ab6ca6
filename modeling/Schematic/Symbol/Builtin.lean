import Schematic.Symbol.Library

/-!
# Builtin symbols

The symbols that every drawing can use: passive parts, diodes, a dual
operational amplifier, pin headers and power symbols.

## Main definitions

* `SymbolLibrary.builtinDefs` — their definitions.
* `SymbolLibrary.builtin` — the library of them.
* `SymbolLibrary.load` — the builtin symbols with further definitions put over
  them.
-/

namespace Schematic.SymbolLibrary

open Scalar

variable {α : Type} [Scalar α]

/-- A symbol with a body and pins. -/
def outlined (id : String) (x0 y0 x1 y1 : α) (pins : List (SymbolPinDef α)) : SymbolDef α :=
  { id, body := some (⟨x0, y0⟩, ⟨x1, y1⟩), pins }

/-- A part with one pin above and one below its body. -/
def twoTerminal (id : String) (halfWidth halfHeight length : α) : SymbolDef α :=
  outlined id (-halfWidth) halfHeight halfWidth (-halfHeight)
    [⟨"1", "~", 0, 3.81, 270, length⟩, ⟨"2", "~", 0, -3.81, 90, length⟩]

/-- A pin header with `n` pins in a column. -/
def header (n : Nat) : SymbolDef α :=
  let pins := (List.range n).map fun i =>
    let number := digitText (i + 1)
    (⟨number, "Pin_" ++ number, -5.08, 2.54 - 2.54 * Scalar.ofInt i, 0, 3.81⟩ : SymbolPinDef α)
  let bottom : α := 2.54 - 2.54 * (Scalar.ofInt n - 1) - 1.27
  outlined ("Connector:Conn_01x" ++ String.ofList (paddedDigits 2 n)) (-1.27) 3.81 1.27 bottom pins

/-- The definitions of the builtin symbols. -/
def builtinDefs : List (SymbolDef α) :=
  [twoTerminal "Device:R" 1.016 2.54 1.27,
   twoTerminal "Device:C" 2.032 0.762 2.794,
   twoTerminal "Device:L" 1.016 2.54 1.27,
   outlined "Device:D" (-1.27) 1.27 1.27 (-1.27)
     [⟨"1", "K", -3.81, 0, 0, 2.54⟩, ⟨"2", "A", 3.81, 0, 180, 2.54⟩],
   { outlined "Device:LED" (-1.27) 1.778 1.27 (-1.27) [] with base := some "Device:D" },
   outlined "Amplifier_Operational:OpAmp_Dual" (-7.62) 5.08 7.62 (-5.08)
     [⟨"1", "OUTA", -10.16, 3.81, 0, 2.54⟩, ⟨"2", "-INA", -10.16, 1.27, 0, 2.54⟩,
      ⟨"3", "+INA", -10.16, -1.27, 0, 2.54⟩, ⟨"4", "V-", -10.16, -3.81, 0, 2.54⟩,
      ⟨"5", "+INB", 10.16, -3.81, 180, 2.54⟩, ⟨"6", "-INB", 10.16, -1.27, 180, 2.54⟩,
      ⟨"7", "OUTB", 10.16, 1.27, 180, 2.54⟩, ⟨"8", "V+", 10.16, 3.81, 180, 2.54⟩],
   header 2, header 3, header 4,
   { outlined "power:GND" (-1.27) 0 1.27 (-2.54) [⟨"1", "GND", 0, 0, 270, 0⟩] with power := true },
   { outlined "power:VCC" (-1.27) 2.54 1.27 0 [⟨"1", "VCC", 0, 0, 90, 0⟩] with power := true }]

/-- The library of the builtin symbols, whose chains of bases are sound. -/
def builtin : SymbolLibrary α := ((ofDefs builtinDefs).toOption).getD ∅

/-- The builtin symbols with further definitions put over them. -/
def load (extra : List (SymbolDef α)) : Except SymbolError (SymbolLibrary α) :=
  ofDefs (overlay builtinDefs extra)

end Schematic.SymbolLibrary
