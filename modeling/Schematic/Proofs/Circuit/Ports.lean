import Schematic.Proofs.Circuit.Compaction
import Schematic.Proofs.Circuit.Connectivity
import Schematic.Proofs.Tables

/-!
# Ports and merged nets

A port is written with the number of a net, and a tie between two nets retires
one of them.  The pins of the retired net move along; the ports do not.  So a
port is there in the netlist that is handed out exactly when the net that it was
last exposed with is live, and then it names that net.

## Main definitions

* `Build.portOf?` — the net that a port is written with.
* `Build.Overlooks` — a way to look at a composable that does not see its members.
* `Build.exposed` — the net that a port was last exposed with.
* `Build.PortsFollow` — ports name the nets that theirs were merged into.

## Main statements

* `Build.Overlooks.perform` — what shows of an operation when members are overlooked.
* `Build.portOf?_run` — a port is written with the net that it was last exposed with.
* `Build.exposed_port_drain` — what becomes of it in the netlist.
* `Build.mergedPort_lost` — a port is lost when its net is merged away.
-/

namespace Schematic

namespace Build

variable {α : Type} {b b' : Build α}

/-! ### The ports of a composable -/

/-- The ports of a composable, none when there is no such composable. -/
def portsOf (b : Build α) (composable : ComposableId) : Table NetId :=
  (b.composables[composable]?.map (·.ports)).getD ∅

/-- The net that a port of a composable is written with. -/
def portOf? (b : Build α) (composable : ComposableId) (port : String) : Option NetId :=
  (b.portsOf composable).find? port

theorem portsOf_congr (h : b'.composables = b.composables) (i : ComposableId) :
    b'.portsOf i = b.portsOf i := by rw [portsOf, portsOf, h]

theorem addChild_portsOf (b : Build α) (parent : Option ComposableId) (child : Child)
    (i : ComposableId) : (b.addChild parent child).portsOf i = b.portsOf i := by
  cases parent with
  | none => rfl
  | some id =>
    simp only [addChild, portsOf, Array.getElem?_modify]
    split <;> simp [Function.comp_def]

/-- A new composable has no ports. -/
theorem putComposable_portsOf (b : Build α) (name : String) (parent : Option ComposableId)
    (position : Option (Placement α)) (i : ComposableId) :
    (b.putComposable name parent position).portsOf i = b.portsOf i := by
  rw [putComposable, addChild_portsOf]
  simp only [portsOf, Array.getElem?_push]
  split
  · next h =>
    subst h
    simp
  · rfl

theorem setInterface_portsOf (b : Build α) (composable : ComposableId) (interface : Interface)
    (i : ComposableId) : (b.setInterface composable interface).portsOf i = b.portsOf i := by
  simp only [setInterface, portsOf, Array.getElem?_modify]
  split <;> simp [Function.comp_def]

theorem setPort_portsOf (b : Build α) (composable : ComposableId) (name : String) (net : NetId)
    (i : ComposableId) :
    (b.setPort composable name net).portsOf i =
      if composable = i ∧ i < b.composables.size then (b.portsOf i).insert name net
      else b.portsOf i := by
  simp only [setPort, portsOf, Array.getElem?_modify]
  by_cases hi : composable = i
  · by_cases known : i < b.composables.size
    · simp [hi, known]
    · simp [hi, known]
  · simp [hi]

theorem setPort_portOf? {composable : ComposableId} (known : composable < b.composables.size)
    (name : String) (net : NetId) (i : ComposableId) (port : String) :
    (b.setPort composable name net).portOf? i port =
      if composable = i ∧ name = port then some net else b.portOf? i port := by
  rw [portOf?, setPort_portsOf]
  by_cases hi : composable = i
  · subst hi
    simp only [known, and_self, if_true, true_and, Table.find?_insert, portOf?]
  · simp only [hi, false_and, if_false, portOf?]

theorem mem_storedOf {i : ComposableId} {port : String} {net : NetId}
    (h : b.portOf? i port = some net) : net ∈ b.storedOf i := by
  have hmem := Table.mem_of_find?_eq_some h
  rw [portsOf] at hmem
  rw [storedOf]
  cases hc : b.composables[i]? with
  | none => rw [hc] at hmem; cases hmem
  | some c =>
    rw [hc] at hmem
    exact List.mem_append_left _ (List.mem_map_of_mem (f := Prod.snd) hmem)

/-! ### Ties leave ports alone -/

theorem Tied.composables {net : NetId} {target : Tie} (t : Tied b net target b') :
    b'.composables = b.composables := by
  cases t with
  | same live on => rfl
  | attach live known free unmarked room => rfl
  | absorb live on ne unmarked other room => exact absorb_composables ..

theorem composables_of_tiePins {first second : PinId} {net : NetId}
    (ok : tiePins first second b = .ok net b') : b'.composables = b.composables := by
  cases tiePins_ok ok with
  | first on tied => exact tied.composables
  | second free on tied => exact tied.composables
  | fresh new one two => exact two.composables.trans one.composables

theorem composables_of_pin {component : ComponentId} {key : String} {p : PinId}
    (ok : Build.pin component key b = .ok p b') : b'.composables = b.composables := by
  obtain ⟨c, -, ⟨-, rfl⟩ | ⟨-, -, rfl⟩⟩ := pin_ok_iff.1 ok <;> rfl

theorem composables_of_connect {component : ComponentId} {key : String} {target : Tie}
    {net : NetId} (ok : connect component key target b = .ok net b') :
    b'.composables = b.composables := by
  obtain ⟨p, b₁, hpin, ⟨-, htied⟩ | ⟨other, -, hties⟩⟩ := connect_ok ok
  · exact htied.composables.trans (composables_of_pin hpin)
  · exact (composables_of_tiePins hties).trans (composables_of_pin hpin)

theorem composables_of_markNoConnect {target : PinId} {reason : Option String}
    {marker : ComponentId} (ok : markNoConnect target reason b = .ok marker b') :
    b'.composables = b.composables := by
  obtain ⟨p, b₁, net, -, -, -, rfl, htied⟩ := markNoConnect_ok ok
  have hmarked : b₁.composables = (b.withMarker p reason).composables := by
    cases htied with
    | beside on tied => exact tied.composables
    | together free tied => exact composables_of_tiePins tied
  exact hmarked

/-! ### What operations do to composables -/

/-- A way to look at a composable that does not see its members, and sees nothing of one that
has no ports and no interface. -/
structure Overlooks {β : Type} (view : Composable α → Option β) : Prop where
  /-- It makes no difference which members there are. -/
  members : ∀ c children, view { c with children } = view c
  /-- There is nothing to see of a new composable. -/
  fresh : ∀ c, c.ports = ∅ → c.interface = none → view c = none

section Overlooks

variable {β : Type} {view : Composable α → Option β}

theorem Overlooks.addChild (h : Overlooks view) (b : Build α) (parent : Option ComposableId)
    (child : Child) (i : ComposableId) :
    (b.addChild parent child).composables[i]?.bind view = b.composables[i]?.bind view := by
  cases parent with
  | none => rfl
  | some id =>
    simp only [Build.addChild, Array.getElem?_modify]
    split
    · cases b.composables[i]? with
      | none => rfl
      | some c => exact h.members c _
    · rfl

theorem Overlooks.putComposable (h : Overlooks view) (b : Build α) (name : String)
    (parent : Option ComposableId) (position : Option (Placement α)) (i : ComposableId) :
    (b.putComposable name parent position).composables[i]?.bind view =
      b.composables[i]?.bind view := by
  rw [Build.putComposable, h.addChild]
  simp only [Array.getElem?_push]
  split
  · next heq =>
    subst heq
    simp [h.fresh]
  · rfl

/-- Only exposing a net and asking for an interface show when one overlooks members. -/
theorem Overlooks.perform (h : Overlooks view) {op : Operation α} {a : Answer α}
    (hop : op.restarts = false) (hexpose : ∀ c name net, op ≠ .expose c name net)
    (hinterface : ∀ c, op ≠ .interface c) (ok : op.perform b = .ok a b') (i : ComposableId) :
    b'.composables[i]?.bind view = b.composables[i]?.bind view := by
  cases op with
  | addComponent spec =>
    obtain ⟨id, ok, -⟩ := map_ok_iff.1 ok
    obtain ⟨-, -, rfl⟩ := addComponent_ok_iff.1 ok
    exact h.addChild ..
  | addComposable name parent position =>
    obtain ⟨id, ok, -⟩ := map_ok_iff.1 ok
    obtain ⟨-, -, rfl⟩ := addComposable_ok_iff.1 ok
    exact h.putComposable ..
  | addNet name =>
    cases ok
    rfl
  | setPower net power =>
    obtain ⟨_, ok, -⟩ := map_ok_iff.1 ok
    obtain ⟨-, rfl⟩ := changeNet_ok_iff.1 ok
    rfl
  | setNumbering numbering =>
    cases ok
    rfl
  | pin component key =>
    obtain ⟨id, ok, -⟩ := map_ok_iff.1 ok
    rw [composables_of_pin ok]
  | connect component key target =>
    obtain ⟨net, ok, -⟩ := map_ok_iff.1 ok
    rw [composables_of_connect ok]
  | tie net target =>
    obtain ⟨_, ok, -⟩ := map_ok_iff.1 ok
    rw [(tie_ok_iff.1 ok).composables]
  | tiePins first second =>
    obtain ⟨net, ok, -⟩ := map_ok_iff.1 ok
    rw [composables_of_tiePins ok]
  | markNoConnect target reason =>
    obtain ⟨marker, ok, -⟩ := map_ok_iff.1 ok
    rw [composables_of_markNoConnect ok]
  | expose composable name net => exact absurd rfl (hexpose composable name net)
  | interface composable => exact absurd rfl (hinterface composable)
  | start => cases hop
  | drain => cases hop

/-- Nothing shows of a refused operation. -/
theorem Overlooks.refused (h : Overlooks view) {op : Operation α} {e : ConnectError}
    (herror : op.perform b = .error e b') (i : ComposableId) :
    b'.composables[i]?.bind view = b.composables[i]?.bind view := by
  cases op with
  | connect component key target =>
    -- a refused tie by key leaves the pin that it asked for
    rw [← perform_connect_error herror]
    cases hpin : (Operation.pin component key).perform b with
    | ok a b₁ => rw [after_of_ok hpin, h.perform rfl (by simp) (by simp) hpin]
    | error e₁ b₁ => rw [after_of_error hpin, ← perform_error rfl hpin]
  | _ => rw [perform_error rfl herror]

end Overlooks

/-! ### What a run has exposed -/

/-- The net that an operation exposes as a port. -/
def exposes (b : Build α) (op : Operation α) (composable : ComposableId) (port : String) :
    Option NetId :=
  match op, op.perform b with
  | .expose c name net, .ok _ _ => if c = composable ∧ name = port then some net else none
  | _, _ => none

/-- The net that a port was last exposed with since the circuit was started. -/
def exposed (b : Build α) (composable : ComposableId) (port : String) (last : Option NetId) :
    List (Operation α) → Option NetId
  | [] => last
  | op :: ops =>
      (b.after op).exposed composable port
        (if op.restarts then none else (b.exposes op composable port).or last) ops

theorem portOf?_eq_bind (b : Build α) (i : ComposableId) (port : String) :
    b.portOf? i port = b.composables[i]?.bind fun c => c.ports.find? port := by
  rw [portOf?, portsOf]
  cases b.composables[i]? <;> rfl

theorem overlooks_port (port : String) :
    Overlooks fun c : Composable α => c.ports.find? port where
  members _ _ := rfl
  fresh c hports _ := by
    rw [hports]
    rfl

/-- An operation that is carried out and does not start again writes the port that it
exposes and no other. -/
theorem portOf?_perform {op : Operation α} {a : Answer α} (hop : op.restarts = false)
    (ok : op.perform b = .ok a b') (i : ComposableId) (port : String) :
    b'.portOf? i port = (b.exposes op i port).or (b.portOf? i port) := by
  cases op with
  | expose composable name net =>
    obtain ⟨_, ok', -⟩ := map_ok_iff.1 ok
    obtain ⟨-, known, rfl⟩ := expose_ok ok'
    simp only [setPort_portOf? known, exposes, ok]
    split <;> rfl
  | interface composable =>
    obtain ⟨interface, ok, -⟩ := map_ok_iff.1 ok
    rcases interface_ok ok with rfl | rfl
    · rfl
    · exact congrArg (·.find? port) (setInterface_portsOf ..)
  | start => cases hop
  | drain => cases hop
  | _ =>
    -- no other operation exposes anything
    rw [portOf?_eq_bind, portOf?_eq_bind,
      (overlooks_port port).perform hop (by simp) (by simp) ok]
    rfl

theorem exposes_of_error {op : Operation α} {e : ConnectError} (h : op.perform b = .error e b')
    (i : ComposableId) (port : String) : b.exposes op i port = none := by
  cases op <;> simp [exposes, h]

/-- A refused operation exposes nothing and leaves the ports alone. -/
theorem portOf?_after {op : Operation α} (hop : op.restarts = false) (i : ComposableId)
    (port : String) : (b.after op).portOf? i port = (b.exposes op i port).or (b.portOf? i port) := by
  cases hperform : op.perform b with
  | ok a b' =>
    rw [after_of_ok hperform]
    exact portOf?_perform hop hperform i port
  | error e b' =>
    rw [exposes_of_error hperform, Option.none_or, after_of_error hperform, portOf?_eq_bind,
      portOf?_eq_bind, (overlooks_port port).refused hperform]

/-- After every run a port is written with the net that it was last exposed with. -/
theorem portOf?_run (ops : List (Operation α)) (i : ComposableId) (port : String) :
    (b.run ops).portOf? i port = b.exposed i port (b.portOf? i port) ops := by
  induction ops generalizing b with
  | nil => rfl
  | cons op ops ih =>
    rw [run_cons, exposed, ih]
    cases hop : op.restarts with
    | true => rw [after_of_restarts hop]; rfl
    | false => rw [portOf?_after hop]; rfl

/-! ### Ports in the netlist -/

/-- The ports of a composable are in order. -/
def PortsSorted (b : Build α) : Prop := ∀ i, (b.portsOf i).Sorted

theorem PortsSorted.grow (h : b.PortsSorted) (g : Growth b b') : b'.PortsSorted := by
  have congr : (∀ i, b'.portsOf i = b.portsOf i) → b'.PortsSorted := fun hports i => hports i ▸ h i
  cases g with
  | component known => exact congr fun i => addChild_portsOf ..
  | composable known => exact congr fun i => putComposable_portsOf ..
  | absorb ne live other room => exact congr fun i => portsOf_congr (absorb_composables ..) i
  | port live =>
    intro i
    rw [setPort_portsOf]
    split
    · exact (h i).insert _ _
    · exact h i
  | interface => exact congr fun i => setInterface_portsOf ..
  | _ => exact congr fun _ => rfl

theorem portsSorted_run (name : String) (ops : List (Operation α)) :
    ((new name).run ops).PortsSorted :=
  run_induction (fun _ _ => Table.sorted_empty) (fun _ _ g h => h.grow g) name ops

/-- In the netlist a port is on the net that it is written with, when that net is live;
else it is not there. -/
theorem toNetlist_portOf? (h : b.PortsSorted) (i : ComposableId) (port : String) :
    b.toNetlist.asBuild.portOf? i port =
      (b.portOf? i port).bind fun net => (b.net? net).map fun _ => b.compactNumber net := by
  have hports : b.toNetlist.asBuild.portsOf i =
      (b.portsOf i).filterMap fun net => (b.net? net).map fun _ => b.compactNumber net := by
    change ((b.toNetlist.composables[i]?).map _).getD ∅ = _
    simp only [toNetlist, renumber_eq, Array.getElem?_map, portsOf]
    cases b.composables[i]? <;> rfl
  rw [portOf?, hports, (h i).find?_filterMap]
  rfl

/-- In the netlist every port that was exposed is on the live net that its net has been
merged into. -/
def PortsFollow (name : String) (ops : List (Operation α)) : Prop :=
  let b := (new name : Build α).run ops
  ∀ composable port net, (new name : Build α).exposed composable port none ops = some net →
    ∃ home x, b.net? home = some x ∧
      (linkGraph ((new name : Build α).history [] ops)).Reachable (.net net) (.net home) ∧
      b.toNetlist.asBuild.portOf? composable port = some (b.compactNumber home)

/-- Every net that was exposed has been merged into one live net, its home, or is live
itself.  In the netlist the port is on that net when it is the one that was exposed, and
when that one was merged away there is no such port. -/
theorem exposed_port_drain (name : String) (ops : List (Operation α)) {composable : ComposableId}
    {port : String} {net : NetId}
    (hexposed : (new name : Build α).exposed composable port none ops = some net) :
    let b := (new name : Build α).run ops
    ∃ home x, drain b = .ok b.toNetlist b.cleared ∧ b.net? home = some x ∧
      (linkGraph ((new name : Build α).history [] ops)).Reachable (.net net) (.net home) ∧
      b.toNetlist.asBuild.portOf? composable port =
        if home = net then some (b.compactNumber home) else none := by
  intro b
  obtain ⟨home, hhomes⟩ : ∃ home, b.Homes ((new name : Build α).history [] ops) home :=
    homes_history ops (homes_cleared (new name)) (netsAgree_cleared (new name))
  have hport : b.portOf? composable port = some net :=
    (portOf?_run ops composable port).trans hexposed
  have hlt : net < b.nets.size := netsStored_run name ops composable net (mem_storedOf hport)
  obtain ⟨x, hx⟩ := hhomes.live net hlt
  refine ⟨home net, x, rfl, hx, hhomes.reach _ _ (if_pos hlt), ?_⟩
  rw [toNetlist_portOf? (portsSorted_run name ops), hport, Option.bind_some]
  cases hnet : b.net? net with
  | none =>
    rw [if_neg]
    · rfl
    · intro heq
      rw [heq, hnet] at hx
      cases hx
  | some y =>
    have hfixed := hhomes.fixed net y hnet
    rw [hfixed, if_pos rfl]
    rfl

/-- An amplifier with a net for its input and one for its output, which is exposed. -/
def amplifier : List (Operation Int) :=
  [.addComponent { symbol := "Device:R", reference := "R1" },
    .addComponent { symbol := "Device:R", reference := "R2" }, .addComposable "amp" none none,
    .addNet (some "in"), .addNet (some "out"), .connect 0 "1" (.net 0), .connect 1 "1" (.net 1),
    .expose 0 "out" 1]

/-- When the output is tied to the input, the exposed net is not live and has no port. -/
theorem amplifier_tied_drain :
    (new "amp").exposed 0 "out" none (amplifier ++ [.tie 0 (.net 1)]) = some 1 ∧
      ((new "amp").run (amplifier ++ [.tie 0 (.net 1)])).toNetlist.asBuild.portOf? 0 "out"
        = none := by
  have hexposed : (new "amp").exposed 0 "out" none (amplifier ++ [.tie 0 (.net 1)]) = some 1 := by
    decide +kernel
  have hretired : ((new "amp").run (amplifier ++ [.tie 0 (.net 1)])).net? 1 = none := by
    decide +kernel
  obtain ⟨home, x, -, hlive, -, hport⟩ := exposed_port_drain "amp" _ hexposed
  have hmerged : home ≠ 1 := by
    rintro rfl
    rw [hretired] at hlive
    cases hlive
  exact ⟨hexposed, hport.trans (if_neg hmerged)⟩

/-- A port does not follow its net into another one. -/
theorem mergedPort_lost : ¬PortsFollow "amp" (amplifier ++ [.tie 0 (.net 1)]) := by
  intro h
  obtain ⟨home, x, -, -, hport⟩ := h 0 "out" 1 (by decide +kernel)
  have hlost : ((new "amp").run (amplifier ++ [.tie 0 (.net 1)])).toNetlist.asBuild.portOf? 0 "out"
      = none := by decide +kernel
  rw [hlost] at hport
  cases hport

end Build

end Schematic
