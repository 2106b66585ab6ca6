import Schematic.Number.Binary64.Text
import Schematic.Number.Scalar

/-!
# Floating-point coordinates

The program draws with binary64 coordinates: each operation is the IEEE one,
and texts are taken from the exact value.
-/

namespace Schematic

instance instScalarFloat : Scalar Float where
  decLt := inferInstance
  decLe := inferInstance
  ofInt := Float.ofInt
  ofNumber
    | .finite d => Binary64.ofDecimal d
    | .infinite negative => if negative then -1.0 / 0.0 else 1.0 / 0.0
    | .nan => 0.0 / 0.0
  floor := Float.floor
  ceil := Float.ceil
  round := Float.round
  truncate x := if x.abs < 4611686018427387904.0 then x.toInt64.toInt else Binary64.truncate x
  remainder := Binary64.remainder
  isFinite := Float.isFinite
  hypot := Binary64.hypot
  sin := Float.sin
  cos := Float.cos
  atan2 := Float.atan2
  pi := 3.141592653589793
  fixed := Binary64.fixed
  shortest := Binary64.shortest

end Schematic
