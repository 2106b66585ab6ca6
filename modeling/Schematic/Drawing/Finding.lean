import Schematic.Drawing.Wire
import Schematic.Layout.Arrangement
import Schematic.Routing.Router

/-!
# Findings

Nothing that goes wrong in a drawing stops it from being made.  What was found
is collected, told apart by where it comes from.

## Main definitions

* `Category` — where a finding comes from.
* `Finding`, `Finding.category`, `Finding.text` — the findings.
-/

namespace Schematic

/-- Where a finding comes from. -/
inductive Category where
  /-- Placing components. -/
  | placement
  /-- Routing wires. -/
  | router
  /-- The search for overlaps. -/
  | overlap
  /-- The check of the finished drawing. -/
  | verify
  deriving DecidableEq, Repr, Inhabited

/-- The name of a category. -/
def Category.name : Category → String
  | .placement => "placement"
  | .router => "router"
  | .overlap => "overlap"
  | .verify => "verify"

/-- All categories. -/
def Category.all : List Category := [.placement, .router, .overlap, .verify]

/-- Something that is wrong with a drawing.  Nets, pins and components are given
by the names they are shown with. -/
inductive Finding (α : Type) where
  /-- The members of a cluster that the author placed overlap. -/
  | placement (error : PlacementError α)
  /-- A connection was drawn as a direct line. -/
  | unrouted (net source target : String) (error : RouteError α)
  /-- Two components overlap. -/
  | overlap (first second : String)
  /-- A pin that its symbol does not have. -/
  | strayPin (pin symbol : String)
  /-- A wire crosses a component that it does not belong to. -/
  | crossesPart (wire : Wire α) (net part : String)
  /-- A wire touches a pin of another net, or of none. -/
  | touchesPin (wire : Wire α) (net pin : String) (other : Option String)
  /-- The wires of two nets join. -/
  | joinsNet (wire : Wire α) (net other : String) (point : Point α)
  /-- No wire leads to a pin. -/
  | unreachedPin (pin net : String)
  deriving Repr

namespace Finding

variable {α : Type}

/-- Where a finding comes from. -/
def category : Finding α → Category
  | .placement .. => .placement
  | .unrouted .. => .router
  | .overlap .. => .overlap
  | .strayPin .. | .crossesPart .. | .touchesPin .. | .joinsNet .. | .unreachedPin .. => .verify

variable [Scalar α]

/-- A wire of a net in a message. -/
def wireText (wire : Wire α) (net : String) : String :=
  "wire " ++ wire.a.text ++ "-" ++ wire.b.text ++ " of net " ++ net

/-- What is said about a finding. -/
def detail : Finding α → String
  | .placement error => error.message
  | .unrouted net source target error =>
      "net " ++ net ++ " (" ++ source ++ " to " ++ target ++ "): " ++ error.message ++
        "; drew a direct line"
  | .overlap first second => first ++ " and " ++ second ++ " overlap"
  | .strayPin pin symbol => "no geometry for pin " ++ pin ++ " of " ++ symbol
  | .crossesPart wire net part => wireText wire net ++ " crosses " ++ part
  | .touchesPin wire net pin other =>
      wireText wire net ++ " touches pin " ++ pin ++ " on " ++
        (match other with
          | some name => "net " ++ name
          | none => "no net")
  | .joinsNet wire net other point =>
      wireText wire net ++ " joins net " ++ other ++ " at " ++ point.text
  | .unreachedPin pin net => "pin " ++ pin ++ " of net " ++ net ++ " is not reached by any wire"

/-- The text of a finding: its category in brackets, and what is said about
it. -/
def text (f : Finding α) : String := "[" ++ f.category.name ++ "] " ++ f.detail

end Finding

end Schematic
