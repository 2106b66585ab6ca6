import Schematic.Circuit.Model
import Schematic.Number.Decimal
import Schematic.Pairs

/-!
# Wires

A wire is a straight line of a net.  Two wires count as the same when their ends
agree to four decimals, whichever end comes first; only the first of them is
drawn.

## Main definitions

* `Wire` — wires.
* `WireKey`, `WireKey.ofEnds` — the rounded ends of a wire, in order.
* `WireKey.text` — the name under which a wire is known from run to run.
* `dedupWires` — the wires without repetitions.
* `countCrossings` — how many pairs of lines cross.
-/

namespace Schematic

open Scalar

/-- A straight line of a net. -/
structure Wire (α : Type) where
  /-- The net it belongs to. -/
  net : NetId
  /-- One end. -/
  a : Point α
  /-- The other end. -/
  b : Point α
  deriving BEq, Repr

/-! ### Keys -/

/-- The ends of a wire in units of a ten-thousandth, the lower one first. -/
structure WireKey where
  /-- The lower end. -/
  low : Int × Int
  /-- The higher end. -/
  high : Int × Int
  deriving DecidableEq, Repr, Inhabited

/-- Whether one end comes before another: by `x`, then by `y`, or as equals. -/
def endsInOrder (p q : Int × Int) : Bool := p.1 < q.1 || (p.1 = q.1 && p.2 ≤ q.2)

/-- The key of two rounded ends. -/
def WireKey.ofRounded (p q : Int × Int) : WireKey := if endsInOrder p q then ⟨p, q⟩ else ⟨q, p⟩

theorem WireKey.ofRounded_comm (p q : Int × Int) : ofRounded p q = ofRounded q p := by
  obtain ⟨a, b⟩ := p
  obtain ⟨c, d⟩ := q
  simp only [ofRounded, endsInOrder, Bool.or_eq_true, Bool.and_eq_true, decide_eq_true_eq]
  split <;> split <;> simp only [WireKey.mk.injEq, Prod.mk.injEq] <;> omega

/-- A number of ten-thousandths with four decimals. -/
def tenThousandthsText (n : Int) : String :=
  (if n < 0 then "-" else "") ++ digitText (n.natAbs / 10000) ++ "." ++
    String.ofList (paddedDigits 4 (n.natAbs % 10000))

/-- The name of a wire. -/
def WireKey.text (k : WireKey) : String :=
  "wire_" ++ tenThousandthsText k.low.1 ++ "_" ++ tenThousandthsText k.low.2 ++ "_" ++
    tenThousandthsText k.high.1 ++ "_" ++ tenThousandthsText k.high.2

variable {α : Type} [Scalar α]

/-- A coordinate in units of a ten-thousandth, a tie going away from zero. -/
def tenThousandths (v : α) : Int := Scalar.toIndex (Scalar.round (v * 10000))

/-- A point in units of a ten-thousandth. -/
def roundedEnd (p : Point α) : Int × Int := (tenThousandths p.x, tenThousandths p.y)

/-- The key of a line. -/
def WireKey.ofEnds (a b : Point α) : WireKey := .ofRounded (roundedEnd a) (roundedEnd b)

/-- The key of a wire. -/
def Wire.key (w : Wire α) : WireKey := .ofEnds w.a w.b

/-- The key of a line does not depend on its direction. -/
theorem WireKey.ofEnds_comm (a b : Point α) : ofEnds a b = ofEnds b a :=
  WireKey.ofRounded_comm _ _

/-! ### Repetitions -/

/-- The wires whose keys are not among `seen` and that are the first with their
keys. -/
def firstOfKeys (seen : List WireKey) : List (Wire α) → List (Wire α)
  | [] => []
  | w :: ws =>
      if seen.contains w.key then firstOfKeys seen ws
      else w :: firstOfKeys (w.key :: seen) ws

/-- Leave out wires without length and all but the first wire of each key. -/
def dedupWires (wires : List (Wire α)) : List (Wire α) :=
  firstOfKeys [] (wires.filter fun w => !(w.a == w.b))

/-! ### Crossings -/

/-- Whether a horizontal line crosses a vertical one inside of both. -/
def properCrossing (horizontal vertical : Point α × Point α) : Bool :=
  let (x0, x1) := sorted2 horizontal.1.x horizontal.2.x
  let (y0, y1) := sorted2 vertical.1.y vertical.2.y
  x0 < vertical.1.x && vertical.1.x < x1 && y0 < horizontal.1.y && horizontal.1.y < y1

/-- Whether two lines cross, one being horizontal and the other one vertical. -/
def segmentsCross (s t : Point α × Point α) : Bool :=
  let horizontal (l : Point α × Point α) : Bool := Scalar.abs (l.1.y - l.2.y) < 1e-6
  let vertical (l : Point α × Point α) : Bool := Scalar.abs (l.1.x - l.2.x) < 1e-6
  if horizontal s && vertical t then properCrossing s t
  else if horizontal t && vertical s then properCrossing t s
  else false

/-- How many pairs of lines cross. -/
def countCrossings (lines : List (Point α × Point α)) : Nat :=
  (pairs lines).countP fun p => segmentsCross p.1 p.2

end Schematic
