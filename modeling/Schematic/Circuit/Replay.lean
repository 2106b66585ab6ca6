import Schematic.Circuit.Build
import Schematic.Circuit.Definition
import Schematic.Circuit.PinRef
import Schematic.Text.Quoted

/-!
# Building a circuit from its definition

A definition is played into a circuit under construction: composables with the
outer ones first, components, nets, exposed ports, and last the pins that stay
unconnected.

## Main definitions

* `CircuitError` — what can be wrong with a definition.
* `CircuitDef.replay` — play a definition into a circuit under construction.
* `CircuitDef.toNetlist` — the finished netlist of a definition.
-/

namespace Schematic

/-- What can be wrong with a circuit definition. -/
inductive CircuitError where
  /-- A text is no pin reference. -/
  | badPinRef (text : String)
  /-- A pin reference names no component. -/
  | unknownRef (text : String)
  /-- Two components have one reference designator. -/
  | duplicateRef (reference : String)
  /-- There is no such composable. -/
  | unknownComposable (name : String)
  /-- A composable lies inside itself. -/
  | containmentCycle (name : String)
  /-- A position has neither two nor three numbers. -/
  | badPosition (owner : String)
  /-- A connection is refused. -/
  | connect (error : ConnectError)
  deriving DecidableEq, Repr, Inhabited

/-- The wording of an error. -/
def CircuitError.message : CircuitError → String
  | .badPinRef text => "Invalid pin reference " ++ quoteText text ++ " (expected REF.PIN)"
  | .unknownRef text => "Pin reference " ++ quoteText text ++ " names an unknown component"
  | .duplicateRef reference => "Duplicate reference designator " ++ reference
  | .unknownComposable name => "Unknown composable " ++ name
  | .containmentCycle name => "Composable containment cycle through " ++ name
  | .badPosition owner => "Position for " ++ owner ++ " must be [x, y] or [x, y, rotation]"
  | .connect error => error.message

variable {α : Type} [Scalar α]

/-- Steps of playing a definition. -/
abbrev ReplayM (α β : Type) := EStateM CircuitError (Build α) β

/-- A building operation as a step of playing a definition. -/
def ReplayM.ofBuild {β : Type} (x : BuildM α β) : ReplayM α β := fun b =>
  match x b with
  | .ok v b => .ok v b
  | .error e b => .error (.connect e) b

open Scalar in
/-- The placement that an author gives by two or three numbers. -/
def authorPlacement (owner : String) : Option (List α) → Except CircuitError (Option (Placement α))
  | none => .ok none
  | some [x, y] => .ok (some ⟨x, y, 0⟩)
  | some [x, y, rotation] => .ok (some ⟨x, y, rotation⟩)
  | some _ => .error (.badPosition owner)

namespace CircuitDef

/-- Numbers by name, the latest first. -/
abbrev Names := List (String × Nat)

/-- Register the composables whose parent is registered already.  The result are
the names registered so far and the composables that have to wait. -/
def registerReady (built : Names) :
    List (ComposableDef α) → ReplayM α (Names × List (ComposableDef α))
  | [] => pure (built, [])
  | d :: ds =>
      let register (parent : Option ComposableId) : ReplayM α (Names × List (ComposableDef α)) := do
        let position ← liftExcept (authorPlacement d.name d.at?)
        let id ← ReplayM.ofBuild (Build.addComposable d.name parent position)
        registerReady ((d.name, id) :: built) ds
      match d.parent with
      | none => register none
      | some p =>
          match built.lookup p with
          | some id => register (some id)
          | none => do
              let (built, waiting) ← registerReady built ds
              pure (built, d :: waiting)
where
  /-- The value of a check, or its error. -/
  liftExcept {β : Type} : Except CircuitError β → ReplayM α β
    | .ok v => pure v
    | .error e => throw e

/-- Why a composable that waits for its parent never gets one: the parent lies
inside it, or there is none of that name. -/
def stuckError (declared : List (ComposableDef α)) (stuck : ComposableDef α) : CircuitError :=
  let parent := stuck.parent.getD ""
  if declared.any (·.name == parent) then .containmentCycle stuck.name
  else .unknownComposable parent

/-- Register composables, parents first, until none is waiting. -/
def registerAll (declared : List (ComposableDef α)) (built : Names)
    (pending : List (ComposableDef α)) : ReplayM α Names := do
  let (built, waiting) ← registerReady built pending
  match waiting with
  | [] => pure built
  | stuck :: _ =>
      if _h : waiting.length < pending.length then registerAll declared built waiting
      else throw (stuckError declared stuck)
termination_by pending.length

/-- Register the composables of a definition. -/
def registerComposables (circuit : CircuitDef α) : ReplayM α Names :=
  registerAll circuit.composables [] circuit.composables

/-- Add the components of a definition, in order. -/
def addComponents (composables : Names) (refs : Names) :
    List (ComponentDef α) → ReplayM α Names
  | [] => pure refs
  | d :: ds => do
      if (refs.lookup d.reference).isSome then throw (.duplicateRef d.reference)
      let position ← registerReady.liftExcept (authorPlacement d.reference d.at?)
      let parent ← match d.parent with
        | none => pure none
        | some name =>
            match composables.lookup name with
            | some id => pure (some id)
            | none => throw (.unknownComposable name)
      let id ← ReplayM.ofBuild <| Build.addComponent
        { symbol := d.symbol
          reference := d.reference
          value := d.value
          footprint := d.footprint
          position
          parent
          group := d.group }
      addComponents composables ((d.reference, id) :: refs) ds

/-- The pin that a reference addresses.  Its key is brought into the form that
`numbering` gives it. -/
def resolvePin (numbering : PinNumbering) (refs : Names) (text : String) : ReplayM α PinId := do
  match PinRef.parse? text with
  | none => throw (.badPinRef text)
  | some r =>
      match refs.lookup r.reference with
      | none => throw (.unknownRef text)
      | some component =>
          let symbol := ((← get).components[component]?.map (·.symbol)).getD ""
          ReplayM.ofBuild (Build.pin component ((numbering symbol r.key).getD r.key))

/-- Tie the pins of a list of references to a net. -/
def tieAll (numbering : PinNumbering) (refs : Names) (net : NetId) :
    List String → ReplayM α Unit
  | [] => pure ()
  | text :: rest => do
      let pin ← resolvePin numbering refs text
      ReplayM.ofBuild (Build.tie net (.pin pin))
      tieAll numbering refs net rest

/-- Add the declared nets, in order. -/
def addNets (numbering : PinNumbering) (refs : Names) : List NetDef → ReplayM α Unit
  | [] => pure ()
  | d :: ds => do
      let net ← ReplayM.ofBuild (Build.addNet d.name)
      ReplayM.ofBuild (Build.setPower net d.power)
      tieAll numbering refs net d.pins
      addNets numbering refs ds

/-- Expose the ports of a composable; a pin that is on no net gets one with the
port's name. -/
def exposePorts (numbering : PinNumbering) (refs : Names) (composable : ComposableId) :
    List (String × String) → ReplayM α Unit
  | [] => pure ()
  | (port, text) :: rest => do
      let pin ← resolvePin numbering refs text
      let net ← match (← get).netOf? pin with
        | some net => pure net
        | none =>
            let net ← ReplayM.ofBuild (Build.addNet (some port))
            ReplayM.ofBuild (Build.tie net (.pin pin))
            pure net
      ReplayM.ofBuild (Build.expose composable port net)
      exposePorts numbering refs composable rest

/-- Expose the ports of all composables, in order of declaration. -/
def exposeAll (numbering : PinNumbering) (refs composables : Names) :
    List (ComposableDef α) → ReplayM α Unit
  | [] => pure ()
  | d :: ds => do
      match composables.lookup d.name with
      | some id => exposePorts numbering refs id d.ports.entries
      | none => pure ()
      exposeAll numbering refs composables ds

/-- Mark the pins that stay unconnected. -/
def markAll (numbering : PinNumbering) (refs : Names) : List NoConnectDef → ReplayM α Unit
  | [] => pure ()
  | d :: ds => do
      let pin ← resolvePin numbering refs d.pin
      let _ ← ReplayM.ofBuild (Build.markNoConnect pin d.reason)
      markAll numbering refs ds

/-- Play a definition into a circuit under construction. -/
def replay (circuit : CircuitDef α) (numbering : PinNumbering) : ReplayM α Unit := do
  let composables ← registerComposables circuit
  let refs ← addComponents composables [] circuit.components
  addNets numbering refs circuit.nets
  exposeAll numbering refs composables circuit.composables
  markAll numbering refs circuit.noConnects

/-- Pin keys taken as they are written. -/
def literalPins : PinNumbering := fun _ _ => none

/-- The finished netlist of a definition, its pin keys brought into one form by
`numbering`. -/
def toNetlist (circuit : CircuitDef α) (numbering : PinNumbering) :
    Except CircuitError (Netlist α) :=
  let start : Build α := { name := circuit.name, numbering := some numbering }
  match circuit.replay numbering start with
  | .ok _ b => .ok b.toNetlist
  | .error e _ => .error e

end CircuitDef

end Schematic
