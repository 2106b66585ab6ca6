import Mathlib.Logic.Relation
import Schematic.Proofs.Circuit.Outcome

/-!
# Runs of operations

A circuit is built by any finite sequence of operations, each of which may be
refused.  Whatever an operation does, other than starting again, is a series of
elementary changes, and what each of them may assume is part of its definition:
an invariant that holds of an empty circuit and is kept by every such change
holds after every run.

## Main definitions

* `Operation`, `Answer` — the operations and what they answer.
* `Build.new`, `Build.after`, `Build.run` — the circuit to begin with, and the
  circuit after an operation and after a sequence of them.
* `Build.Growth` — the elementary changes.

## Main statements

* `Build.growth_after` — an operation is a series of elementary changes.
* `Build.run_induction` — the principle for invariants.
* `Build.error_leaves_unchanged` — a refused operation leaves the circuit as it
  was, and a refused tie by key leaves it as asking for the pin does.
-/

namespace Schematic

open Relation (ReflTransGen)

/-- An operation on a circuit under construction. -/
inductive Operation (α : Type) where
  /-- Add a component. -/
  | addComponent (spec : ComponentSpec α)
  /-- Add a composable. -/
  | addComposable (name : String) (parent : Option ComposableId)
      (position : Option (Placement α))
  /-- Add a net. -/
  | addNet (name : Option String)
  /-- Say whether a net is explicitly a power net. -/
  | setPower (net : NetId) (power : Bool)
  /-- Bring all pin keys asked for from now on into one form. -/
  | setNumbering (numbering : PinNumbering)
  /-- Ask for a pin by key. -/
  | pin (component : ComponentId) (key : String)
  /-- Tie the pin with a key. -/
  | connect (component : ComponentId) (key : String) (target : Tie)
  /-- Tie a pin or another net to a net. -/
  | tie (net : NetId) (target : Tie)
  /-- Tie two pins. -/
  | tiePins (first second : PinId)
  /-- Mark a pin as intentionally unconnected. -/
  | markNoConnect (target : PinId) (reason : Option String)
  /-- Expose a net as a port. -/
  | expose (composable : ComposableId) (name : String) (net : NetId)
  /-- Ask for the interface of a composable. -/
  | interface (composable : ComposableId)
  /-- Start again. -/
  | start
  /-- Hand out the netlist and start again. -/
  | drain

/-- What an operation answers. -/
inductive Answer (α : Type) where
  /-- Nothing but that it is done. -/
  | done
  /-- A component. -/
  | component (id : ComponentId)
  /-- A composable. -/
  | composable (id : ComposableId)
  /-- A pin. -/
  | pin (id : PinId)
  /-- A net. -/
  | net (id : NetId)
  /-- An interface. -/
  | interface (i : Interface)
  /-- A netlist. -/
  | netlist (n : Netlist α)

variable {α : Type}

/-- Carry out an operation. -/
def Operation.perform : Operation α → BuildM α (Answer α)
  | .addComponent spec => .component <$> Build.addComponent spec
  | .addComposable name parent position =>
      .composable <$> Build.addComposable name parent position
  | .addNet name => .net <$> Build.addNet name
  | .setPower net power => (fun _ => .done) <$> Build.setPower net power
  | .setNumbering numbering => (fun _ => .done) <$> Build.setNumbering numbering
  | .pin component key => .pin <$> Build.pin component key
  | .connect component key target => .net <$> Build.connect component key target
  | .tie net target => (fun _ => .done) <$> Build.tie net target
  | .tiePins first second => .net <$> Build.tiePins first second
  | .markNoConnect target reason => .component <$> Build.markNoConnect target reason
  | .expose composable name net => (fun _ => .done) <$> Build.expose composable name net
  | .interface composable => .interface <$> Build.interface composable
  | .start => (fun _ => .done) <$> Build.start
  | .drain => .netlist <$> Build.drain

/-- Whether an operation starts again. -/
def Operation.restarts : Operation α → Bool
  | .start | .drain => true
  | _ => false

/-- Whether an operation is a tie by key. -/
def Operation.byKey : Operation α → Bool
  | .connect .. => true
  | _ => false

namespace Build

/-- A circuit with nothing in it. -/
def new (name : String) : Build α := { name }

/-- The circuit after an operation, whether it is carried out or refused. -/
def after (b : Build α) (op : Operation α) : Build α :=
  match op.perform b with
  | .ok _ b' => b'
  | .error _ b' => b'

/-- The circuit after a sequence of operations. -/
def run (b : Build α) (ops : List (Operation α)) : Build α := ops.foldl after b

@[simp] theorem run_nil (b : Build α) : b.run [] = b := rfl

@[simp] theorem run_cons (b : Build α) (op : Operation α) (ops : List (Operation α)) :
    b.run (op :: ops) = (b.after op).run ops := rfl

theorem run_append (b : Build α) (ops more : List (Operation α)) :
    b.run (ops ++ more) = (b.run ops).run more := List.foldl_append

variable {b b' : Build α} {e : ConnectError}

theorem after_of_ok {op : Operation α} {a : Answer α} (h : op.perform b = .ok a b') :
    b.after op = b' := by rw [after, h]

theorem after_of_error {op : Operation α} (h : op.perform b = .error e b') :
    b.after op = b' := by rw [after, h]

/-! ### Refusals -/

/-- A refused operation leaves the circuit as it was, unless it is a tie by key. -/
theorem perform_error {op : Operation α} (hop : op.byKey = false)
    (h : op.perform b = .error e b') : b = b' := by
  cases op with
  | addComponent spec => exact addComponent_error (map_error_iff.1 h)
  | addComposable name parent position => exact addComposable_error (map_error_iff.1 h)
  | addNet name => cases h
  | setPower net power => exact (changeNet_error (map_error_iff.1 h)).2
  | setNumbering numbering => cases h
  | pin component key => exact (pin_error_iff.1 (map_error_iff.1 h)).2.2
  | connect component key target => cases hop
  | tie net target => exact tie_error (map_error_iff.1 h)
  | tiePins first second => exact tiePins_error (map_error_iff.1 h)
  | markNoConnect target reason => exact markNoConnect_error (map_error_iff.1 h)
  | expose composable name net => exact expose_error (map_error_iff.1 h)
  | interface composable => exact interface_error (map_error_iff.1 h)
  | start => cases h
  | drain => cases h

/-- A refused tie by key leaves the circuit as asking for the pin does. -/
theorem perform_connect_error {component : ComponentId} {key : String} {target : Tie}
    (h : (Operation.connect component key target).perform b = .error e b') :
    b.after (.pin component key) = b' := by
  rcases connect_error (map_error_iff.1 h) with hpin | ⟨p, hpin⟩
  · exact after_of_error (map_error_iff.2 hpin)
  · exact after_of_ok (map_ok_iff.2 ⟨p, hpin, rfl⟩)

/-- A refused operation leaves the circuit as it was.  A refused tie by key leaves it as
asking for the pin does, and that is as it was if there is no such component. -/
theorem error_leaves_unchanged {op : Operation α} (h : op.perform b = .error e b') :
    match op with
    | .connect component key _ =>
        b' = b.after (.pin component key) ∧ (b.components.size ≤ component → b' = b)
    | _ => b' = b := by
  cases op with
  | connect component key target =>
    have hafter := perform_connect_error h
    refine ⟨hafter.symm, fun hsize => ?_⟩
    have hpin : pin component key b = .error (.unknownComponent component) b :=
      pin_error_iff.2 ⟨Array.getElem?_eq_none hsize, rfl, rfl⟩
    rw [← hafter, after_of_error (map_error_iff.2 hpin)]
  | _ => exact (perform_error rfl h).symm

/-- A net with two functional pins. -/
def busy : Build Int :=
  (new "busy").run [.addComponent { symbol := "Device:R", reference := "R1" },
    .addComponent { symbol := "Device:R", reference := "R2" }, .addNet none,
    .connect 0 "1" (.net 0), .connect 1 "1" (.net 0)]

/-- The marker that there is no room for is taken away again. -/
theorem busy_refuses_marker :
    (Operation.markNoConnect 0 none).perform busy = .error (.noConnectConflict "#0") busy := by
  obtain ⟨b', h⟩ : ∃ b', (Operation.markNoConnect 0 none).perform busy =
      .error (.noConnectConflict "#0") b' := ⟨_, rfl⟩
  have hb : b' = busy := error_leaves_unchanged h
  rw [h, hb]

/-! ### Elementary changes -/

/-- The elementary changes that operations consist of, each with what the operations
have checked before they make it. -/
inductive Growth (b : Build α) : Build α → Prop
  /-- A component is put into a composable that exists, or into none. -/
  | component {spec : ComponentSpec α}
      (known : ∀ p, spec.parent = some p → p < b.composables.size) : Growth b (b.putComponent spec)
  /-- A component without pins and without a position becomes a marker. -/
  | marker {id : ComponentId} (bare : b.tableOf id = ∅)
      (unplaced : ∀ c, b.components[id]? = some c → c.position = none) : Growth b (b.setMarker id)
  /-- A composable is put into a composable that exists, or into none. -/
  | composable {name : String} {parent : Option ComposableId} {position : Option (Placement α)}
      (known : ∀ p, parent = some p → p < b.composables.size) :
      Growth b (b.putComposable name parent position)
  /-- A net is put. -/
  | net {name : Option String} : Growth b (b.putNet name)
  /-- A net becomes a power net or ceases to be one. -/
  | power {net : NetId} {power : Bool} : Growth b (b.modifyNet net fun n => { n with power })
  /-- Pin keys get another form. -/
  | numbering {numbering : PinNumbering} : Growth b { b with numbering := some numbering }
  /-- A component gets a pin of a new key. -/
  | pin {component : ComponentId} {key : String} (known : component < b.components.size)
      (new : (b.tableOf component).find? key = none) :
      Growth b (b.putPin component key)
  /-- A pin without a net is put on one that has room for it. -/
  | attach {net : NetId} {pin : PinId} {n : Net} {p : Pin} (live : b.net? net = some n)
      (known : b.pins[pin]? = some p) (free : p.net = none)
      (room : b.compatible (n.pins ++ [pin]) = true) : Growth b (b.attach net pin)
  /-- A net is moved into another one that has room for it. -/
  | absorb {net source : NetId} {n r : Net} (ne : net ≠ source) (live : b.net? net = some n)
      (other : b.net? source = some r) (room : b.compatible (n.pins ++ r.pins) = true) :
      Growth b (b.absorb net source r)
  /-- A pin that shares its net with a marker is marked as unconnected. -/
  | noConnect {pin marker : PinId} {net : NetId} (on : b.netOf? pin = some net)
      (beside : b.netOf? marker = some net) (isMarker : b.isMarkerPin marker = true) :
      Growth b (b.setNoConnect pin)
  /-- A live net becomes a port. -/
  | port {composable : ComposableId} {name : String} {net : NetId} {n : Net}
      (live : b.net? net = some n) : Growth b (b.setPort composable name net)
  /-- An interface is kept. -/
  | interface {composable : ComposableId} :
      Growth b (b.setInterface composable (b.currentInterface composable))

theorem growth_of_pin {component : ComponentId} {key : String} {id : PinId}
    (h : Build.pin component key b = .ok id b') : ReflTransGen Growth b b' := by
  obtain ⟨c, hc, ⟨-, rfl⟩ | ⟨hnew, -, rfl⟩⟩ := pin_ok_iff.1 h
  · exact .refl
  · refine .single (.pin (Array.getElem?_eq_some_iff.1 hc).1 ?_)
    rw [tableOf, hc]
    exact hnew

theorem growth_of_tied {net : NetId} {target : Tie} (h : Tied b net target b') :
    ReflTransGen Growth b b' := by
  cases h with
  | same => exact .refl
  | attach live known free _ room => exact .single (.attach live known free room)
  | absorb live _ ne _ other room => exact .single (.absorb ne live other room)

theorem growth_of_tiePins {first second : PinId} {net : NetId}
    (h : tiePins first second b = .ok net b') : ReflTransGen Growth b b' := by
  cases tiePins_ok h with
  | first _ tied => exact growth_of_tied tied
  | second _ _ tied => exact growth_of_tied tied
  | fresh _ one two => exact (ReflTransGen.single .net).trans ((growth_of_tied one).trans
      (growth_of_tied two))

theorem growth_withMarker (p : Pin) (reason : Option String) :
    ReflTransGen Growth b (b.withMarker p reason) := by
  let b₁ := b.putComponent (b.markerSpec p reason)
  have hbare : b₁.tableOf b.components.size = ∅ := by
    simp [b₁, tableOf, ComponentSpec.component]
  have hunplaced : ∀ c, b₁.components[b.components.size]? = some c → c.position = none := by
    simp [b₁, ComponentSpec.component, markerSpec]
  calc ReflTransGen Growth b b₁ := .single (.component (by rintro _ ⟨⟩))
    ReflTransGen Growth _ (b₁.setMarker b.components.size) := .single (.marker hbare hunplaced)
    ReflTransGen Growth _ (b.withMarker p reason) :=
      .single (.pin (by simp [b₁, setMarker]) (by rw [setMarker_tableOf, hbare]; rfl))

/-- A tie of a pin without a net attaches the pin. -/
theorem attach_of_tied {net : NetId} {pin : PinId} (h : Tied b net (.pin pin) b')
    (hfree : b.netOf? pin = none) :
    b' = b.attach net pin ∧ b'.netOf? pin = some net := by
  cases h with
  | same _ on => rw [netOfTie?, hfree] at on; cases on
  | attach _ known _ _ _ => exact ⟨rfl, by simp [attach_netOf?, known]⟩
  | absorb _ on _ _ _ _ => rw [netOfTie?, hfree] at on; cases on

/-- A marker is attached to the net of the pin that it marks, or both are attached to a new
net. -/
theorem MarkerTied.eq_attach {target : PinId} {p : Pin} {reason : Option String} {net : NetId}
    (hp : b.pins[target]? = some p)
    (h : MarkerTied (b.withMarker p reason) target b.pins.size p net b') :
    p.net = some net ∧ b' = (b.withMarker p reason).attach net b.pins.size ∨
      p.net = none ∧ net = b.nets.size ∧
        b' = (((b.withMarker p reason).putNet none).attach net target).attach net b.pins.size := by
  have hne : b.pins.size ≠ target := fun heq => by simp [← heq] at hp
  have htarget : (b.withMarker p reason).netOf? target = p.net := by
    rw [withMarker_netOf?, netOf?_of_pin hp]
  have hmarker : (b.withMarker p reason).netOf? b.pins.size = none := by
    rw [withMarker_netOf?, netOf?_of_size_le (Nat.le_refl _)]
  -- the pin of the marker is new and on no net, so that it is attached in either case
  cases h with
  | beside on tied => exact .inl ⟨on, (attach_of_tied tied hmarker).1⟩
  | together free tied =>
    cases tiePins_ok tied with
    | first on =>
      rw [htarget, free] at on
      cases on
    | second _ on =>
      rw [hmarker] at on
      cases on
    | fresh new one two =>
      obtain ⟨rfl, -⟩ := attach_of_tied one (htarget.trans free)
      have hfree : (((b.withMarker p reason).putNet none).attach net target).netOf? b.pins.size =
          none := by
        rw [attach_netOf?, if_neg (Ne.symm hne)]
        exact hmarker
      obtain ⟨rfl, -⟩ := attach_of_tied two hfree
      exact .inr ⟨free, new.trans (congrArg Array.size (putComponent_nets ..)), rfl⟩

/-- However a marker is tied, it ends up on one net with the pin that it marks. -/
theorem MarkerTied.ends {target : PinId} {p : Pin} {reason : Option String} {net : NetId}
    (hp : b.pins[target]? = some p)
    (h : MarkerTied (b.withMarker p reason) target b.pins.size p net b') :
    b'.netOf? target = some net ∧ b'.netOf? b.pins.size = some net ∧
      b'.isMarkerPin b.pins.size = true := by
  have hne : b.pins.size ≠ target := fun heq => by simp [← heq] at hp
  have htarget : (b.withMarker p reason).pins[target]? = some p := by
    rw [withMarker_pins, Array.getElem?_push, if_neg (Ne.symm hne), hp]
  have hmarker := withMarker_isMarkerPin (b := b) p reason
  rcases h.eq_attach hp with ⟨on, rfl⟩ | ⟨free, rfl, rfl⟩
  · refine ⟨?_, ?_, by rwa [attach_isMarkerPin]⟩
    · rw [attach_netOf?, if_neg hne, netOf?_of_pin htarget, on]
    · simp [attach_netOf?, withMarker_pins]
  · refine ⟨?_, ?_, by rwa [attach_isMarkerPin, attach_isMarkerPin]⟩
    · rw [attach_netOf?, if_neg hne, attach_netOf?, if_pos rfl]
      exact congrArg _ htarget
    · rw [attach_netOf?, if_pos rfl, attach_pins, if_neg (Ne.symm hne)]
      simp [putNet, withMarker_pins]

theorem growth_of_markerTied {target markerPin : PinId} {p : Pin} {net : NetId}
    (h : MarkerTied b target markerPin p net b') : ReflTransGen Growth b b' := by
  cases h with
  | beside on tied => exact growth_of_tied tied
  | together free tied => exact growth_of_tiePins tied

theorem growth_of_markNoConnect {target : PinId} {reason : Option String} {marker : ComponentId}
    (h : markNoConnect target reason b = .ok marker b') : ReflTransGen Growth b b' := by
  obtain ⟨p, b₁, net, hp, -, -, rfl, htied⟩ := markNoConnect_ok h
  obtain ⟨htarget, hmarker, hisMarker⟩ := htied.ends hp
  calc ReflTransGen Growth b (b.withMarker p reason) := growth_withMarker p reason
    ReflTransGen Growth _ b₁ := growth_of_markerTied htied
    ReflTransGen Growth _ (b₁.setNoConnect target) := .single (.noConnect htarget hmarker hisMarker)

/-- An operation that is carried out is a series of elementary changes, or it starts
again. -/
theorem growth_of_perform {op : Operation α} {a : Answer α} (hop : op.restarts = false)
    (h : op.perform b = .ok a b') : ReflTransGen Growth b b' := by
  cases op with
  | addComponent spec =>
    obtain ⟨id, h, -⟩ := map_ok_iff.1 h
    obtain ⟨known, -, rfl⟩ := addComponent_ok_iff.1 h
    exact .single (.component known)
  | addComposable name parent position =>
    obtain ⟨id, h, -⟩ := map_ok_iff.1 h
    obtain ⟨known, -, rfl⟩ := addComposable_ok_iff.1 h
    exact .single (.composable known)
  | addNet name =>
    cases h
    exact .single .net
  | setPower net power =>
    obtain ⟨_, h, -⟩ := map_ok_iff.1 h
    obtain ⟨-, rfl⟩ := changeNet_ok_iff.1 h
    exact .single .power
  | setNumbering numbering =>
    cases h
    exact .single .numbering
  | pin component key =>
    obtain ⟨id, h, -⟩ := map_ok_iff.1 h
    exact growth_of_pin h
  | connect component key target =>
    obtain ⟨net, h, -⟩ := map_ok_iff.1 h
    obtain ⟨p, b₁, hpin, ⟨-, htied⟩ | ⟨other, -, hties⟩⟩ := connect_ok h
    · exact (growth_of_pin hpin).trans (growth_of_tied htied)
    · exact (growth_of_pin hpin).trans (growth_of_tiePins hties)
  | tie net target =>
    obtain ⟨_, h, -⟩ := map_ok_iff.1 h
    exact growth_of_tied (tie_ok_iff.1 h)
  | tiePins first second =>
    obtain ⟨net, h, -⟩ := map_ok_iff.1 h
    exact growth_of_tiePins h
  | markNoConnect target reason =>
    obtain ⟨marker, h, -⟩ := map_ok_iff.1 h
    exact growth_of_markNoConnect h
  | expose composable name net =>
    obtain ⟨_, h, -⟩ := map_ok_iff.1 h
    obtain ⟨⟨n, live⟩, -, rfl⟩ := expose_ok h
    exact .single (.port live)
  | interface composable =>
    obtain ⟨i, h, -⟩ := map_ok_iff.1 h
    rcases interface_ok h with rfl | rfl
    · exact .refl
    · exact .single .interface
  | start => cases hop
  | drain => cases hop

theorem growth_after_pin (component : ComponentId) (key : String) :
    ReflTransGen Growth b (b.after (.pin component key)) := by
  cases h : (Operation.pin component key).perform b with
  | ok a b' =>
    rw [after_of_ok h]
    exact growth_of_perform rfl h
  | error e b' => rw [after_of_error h, perform_error rfl h]

/-- Whether it is carried out or refused, an operation is a series of elementary
changes, unless it starts again. -/
theorem growth_after {op : Operation α} (hop : op.restarts = false) :
    ReflTransGen Growth b (b.after op) := by
  cases h : op.perform b with
  | ok a b' =>
    rw [after_of_ok h]
    exact growth_of_perform hop h
  | error e b' =>
    rw [after_of_error h]
    -- a refusal leaves nothing behind, except for the pin of a tie by key
    cases op with
    | connect component key target =>
      rw [← perform_connect_error h]
      exact growth_after_pin component key
    | _ => rw [perform_error rfl h]

theorem after_of_restarts {op : Operation α} (hop : op.restarts = true) :
    b.after op = b.cleared := by
  cases op with
  | start => rfl
  | drain => rfl
  | _ => cases hop

theorem growth_chain {P : Build α → Prop} (grow : ∀ b b', Growth b b' → P b → P b')
    (hchain : ReflTransGen Growth b b') (h : P b) : P b' := by
  induction hchain with
  | refl => exact h
  | tail _ hlast ih => exact grow _ _ hlast ih

/-- Operations that do not start again are elementary changes, one after another. -/
theorem growth_run {ops : List (Operation α)} (hops : ∀ op ∈ ops, op.restarts = false) :
    ReflTransGen Growth b (b.run ops) := by
  induction ops generalizing b with
  | nil => exact .refl
  | cons op ops ih =>
    exact (growth_after (hops op List.mem_cons_self)).trans
      (ih fun o ho => hops o (List.mem_cons_of_mem _ ho))

/-- What every elementary change keeps is kept by operations that do not start again. -/
theorem growth_induction {P : Build α → Prop} (grow : ∀ b b', Growth b b' → P b → P b')
    {ops : List (Operation α)} (hops : ∀ op ∈ ops, op.restarts = false) (h : P b) :
    P (b.run ops) :=
  growth_chain grow (growth_run hops) h

/-- What holds of an empty circuit and is kept by every elementary change holds after
every run. -/
theorem run_induction {P : Build α → Prop} (empty : ∀ b : Build α, P b.cleared)
    (grow : ∀ b b', Growth b b' → P b → P b') (name : String) (ops : List (Operation α)) :
    P ((new name).run ops) := by
  suffices h : ∀ b : Build α, P b → P (b.run ops) from h _ (empty (new name))
  -- by induction on the operations: each either empties the circuit or lets it grow
  induction ops with
  | nil => exact fun _ h => h
  | cons op ops ih =>
    intro b h
    refine ih _ ?_
    cases hop : op.restarts with
    | true => rw [after_of_restarts hop]; exact empty b
    | false => exact growth_chain grow (growth_after hop) h

end Build

end Schematic
