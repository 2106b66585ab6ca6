import Schematic.Proofs.Circuit.Addressing

/-!
# Circuits that give pin keys one form

A circuit that has a numbering from the start gives every key that it is asked
for the form that the numbering gives it.  No operation changes the symbol of a
component, and none but the one for it changes the numbering, so that a component
has one pin for each form, whenever it is asked for it.  Playing a definition
whose keys have been given that form before comes to the same as playing it with
the keys as they are written.

## Main definitions

* `Operation.Respects` — an operation gives keys no other form.
* `Build.Numbers` — a circuit that has had a numbering from the start.
* `ReplayM.SameUnder` — two steps come to the same in circuits with a numbering.

## Main statements

* `Build.numbering_after` — operations leave the numbering alone.
* `Build.Numbers.pin_ok` — asking for a key answers the pin that has its form.
* `Build.Numbers.pin_eq_iff` — when two keys have one pin.
* `CircuitDef.replay_sameUnder` — keys that have their form already are left as they are.
-/

namespace Schematic

open Relation (ReflTransGen)

variable {α β γ : Type}

/-- An operation gives pin keys no other form than a numbering does. -/
def Operation.Respects (numbering : PinNumbering) (op : Operation α) : Prop :=
  ∀ other, op = .setNumbering other → other = numbering

/-- A numbering leaves a key as it is that it has given its form. -/
def PinNumbering.Settles (numbering : PinNumbering) : Prop :=
  ∀ symbol key, let form := (numbering symbol key).getD key
    (numbering symbol form).getD form = form

namespace Build

variable {b b' : Build α} {numbering : PinNumbering}

/-! ### What operations leave alone -/

@[simp] theorem addChild_numbering (b : Build α) (parent : Option ComposableId) (child : Child) :
    (b.addChild parent child).numbering = b.numbering := by
  cases parent <;> rfl

theorem numbering_of_pin {component : ComponentId} {key : String} {id : PinId}
    (h : pin component key b = .ok id b') : b'.numbering = b.numbering := by
  obtain ⟨c, -, ⟨-, rfl⟩ | ⟨-, -, rfl⟩⟩ := pin_ok_iff.1 h <;> rfl

/-- An operation leaves the numbering alone, unless it is the one that sets it. -/
theorem numbering_of_perform {op : Operation α} {a : Answer α}
    (hop : ∀ other, op ≠ .setNumbering other) (h : op.perform b = .ok a b') :
    b'.numbering = b.numbering := by
  cases op with
  | addComponent spec =>
    obtain ⟨id, h, -⟩ := map_ok_iff.1 h
    obtain ⟨-, -, rfl⟩ := addComponent_ok_iff.1 h
    exact addChild_numbering ..
  | addComposable name parent position =>
    obtain ⟨id, h, -⟩ := map_ok_iff.1 h
    obtain ⟨-, -, rfl⟩ := addComposable_ok_iff.1 h
    exact addChild_numbering ..
  | addNet name =>
    cases h
    rfl
  | setPower net power =>
    obtain ⟨_, h, -⟩ := map_ok_iff.1 h
    obtain ⟨-, rfl⟩ := changeNet_ok_iff.1 h
    rfl
  | setNumbering other => exact absurd rfl (hop other)
  | pin component key =>
    obtain ⟨id, h, -⟩ := map_ok_iff.1 h
    exact numbering_of_pin h
  | connect component key target =>
    obtain ⟨net, h, -⟩ := map_ok_iff.1 h
    obtain ⟨p, b₁, hpin, ⟨-, htied⟩ | ⟨other, -, hties⟩⟩ := connect_ok h
    · exact htied.connects.numbering_eq.trans (numbering_of_pin hpin)
    · exact (connects_tiePins hties).numbering_eq.trans (numbering_of_pin hpin)
  | tie net target =>
    obtain ⟨_, h, -⟩ := map_ok_iff.1 h
    exact (tie_ok_iff.1 h).connects.numbering_eq
  | tiePins first second =>
    obtain ⟨net, h, -⟩ := map_ok_iff.1 h
    exact (connects_tiePins h).numbering_eq
  | markNoConnect target reason =>
    obtain ⟨marker, h, -⟩ := map_ok_iff.1 h
    exact (connects_markNoConnect h).numbering_eq
  | expose composable name net =>
    obtain ⟨_, h, -⟩ := map_ok_iff.1 h
    obtain ⟨-, -, rfl⟩ := expose_ok h
    rfl
  | interface composable =>
    obtain ⟨i, h, -⟩ := map_ok_iff.1 h
    rcases interface_ok h with rfl | rfl <;> rfl
  | start =>
    cases h
    rfl
  | drain =>
    cases h
    rfl

/-- Whether they are carried out or refused, operations that give keys no other form leave the
numbering alone. -/
theorem numbering_after {op : Operation α} (hop : op.Respects numbering)
    (h : b.numbering = some numbering) : (b.after op).numbering = some numbering := by
  by_cases hset : ∃ other, op = .setNumbering other
  · obtain ⟨other, rfl⟩ := hset
    exact congrArg some (hop other rfl)
  · have hset' : ∀ other, op ≠ .setNumbering other := fun other heq => hset ⟨other, heq⟩
    cases hperform : op.perform b with
    | ok a b' => rw [after_of_ok hperform, numbering_of_perform hset' hperform, h]
    | error e b' =>
      rw [after_of_error hperform]
      cases hkey : op.byKey with
      | false => rw [← perform_error hkey hperform, h]
      | true =>
        -- a refused tie by key has asked for the pin
        cases op with
        | connect component key target =>
          rw [← perform_connect_error hperform]
          cases hpin : (Operation.pin component key).perform b with
          | ok a b₁ => rw [after_of_ok hpin, numbering_of_perform (by simp) hpin, h]
          | error e b₁ => rw [after_of_error hpin, ← perform_error rfl hpin, h]
        | _ => cases hkey

theorem numbering_run {ops : List (Operation α)} (hops : ∀ op ∈ ops, op.Respects numbering)
    (h : b.numbering = some numbering) : (b.run ops).numbering = some numbering := by
  induction ops generalizing b with
  | nil => exact h
  | cons op ops ih =>
    exact ih (fun o ho => hops o (List.mem_cons_of_mem op ho))
      (numbering_after (hops op List.mem_cons_self) h)

/-- No elementary change gives a component another symbol. -/
theorem symbol_of_growth (g : Growth b b') {i : ComponentId} {symbol : String}
    (h : b.components[i]?.map (·.symbol) = some symbol) :
    b'.components[i]?.map (·.symbol) = some symbol := by
  cases g with
  | component known =>
    have hlt : i < b.components.size := by
      obtain ⟨c, hc, -⟩ := Option.map_eq_some_iff.1 h
      exact (Array.getElem?_eq_some_iff.1 hc).1
    rwa [putComponent_components, Array.getElem?_push, if_neg (Nat.ne_of_lt hlt)]
  | marker bare =>
    rw [setMarker, Array.getElem?_modify]
    split <;> simpa [Function.comp_def] using h
  | composable known => rwa [putComposable_components]
  | pin known new =>
    rw [putPin, Array.getElem?_modify]
    split <;> simpa [Function.comp_def] using h
  | absorb ne live other room => rwa [absorb_components]
  | _ => exact h

theorem symbol_of_chain (hchain : ReflTransGen Growth b b') {i : ComponentId} {symbol : String}
    (h : b.components[i]?.map (·.symbol) = some symbol) :
    b'.components[i]?.map (·.symbol) = some symbol :=
  growth_chain (P := fun b => b.components[i]?.map (·.symbol) = some symbol)
    (fun _ _ g => symbol_of_growth g) hchain h

/-- A key that has been given its form is asked for like the key that was written. -/
theorem pin_form (hsettles : numbering.Settles) (hb : b.numbering = some numbering)
    (i : ComponentId) (key : String) :
    pin i ((numbering ((b.components[i]?.map (·.symbol)).getD "") key).getD key) b =
      pin i key b := by
  cases hc : b.components[i]? with
  | none => simp only [pin, get_bind_apply, hc]
  | some c =>
    have hkey : b.canonicalKey c ((numbering c.symbol key).getD key) = b.canonicalKey c key := by
      rw [canonicalKey, canonicalKey, hb]
      exact hsettles c.symbol key
    simp only [pin, get_bind_apply, hc, Option.map_some, Option.getD_some, hkey]

/-! ### Circuits with a numbering -/

/-- A circuit that has had a numbering from the start: whatever has been done since has given
keys no other form. -/
def Numbers (numbering : PinNumbering) (b : Build α) : Prop :=
  ∃ name ops, (∀ op ∈ ops, op.Respects numbering) ∧
    b = (new name).run (.setNumbering numbering :: ops)

namespace Numbers

variable (h : b.Numbers numbering)
include h

theorem numbering_eq : b.numbering = some numbering := by
  obtain ⟨name, ops, hops, rfl⟩ := h
  exact numbering_run (b := (new name).after (.setNumbering numbering)) hops rfl

theorem wellFormed : b.WellFormed := by
  obtain ⟨name, ops, -, rfl⟩ := h
  exact wellFormed_run name _

theorem run {more : List (Operation α)} (hmore : ∀ op ∈ more, op.Respects numbering) :
    (b.run more).Numbers numbering := by
  obtain ⟨name, ops, hops, rfl⟩ := h
  refine ⟨name, ops ++ more, fun op hop => ?_, ?_⟩
  · exact (List.mem_append.1 hop).elim (hops op) (hmore op)
  · rw [← List.cons_append, run_append]

theorem canonicalKey_eq (c : Component α) (key : String) :
    b.canonicalKey c key = (numbering c.symbol key).getD key := by
  rw [canonicalKey, h.numbering_eq, Option.bind_some]

/-- Asking for a key of a component answers the pin that has the form of the key. -/
theorem pin_ok {i : ComponentId} {c : Component α} (hc : b.components[i]? = some c)
    (key : String) :
    ∃ p b', pin i key b = .ok p b' ∧ b'.Numbers numbering ∧ ReflTransGen Growth b b' ∧
      b'.site? p = some (i, (numbering c.symbol key).getD key) := by
  cases hpin : pin i key b with
  | error e b' =>
    rw [(pin_error_iff.1 hpin).1] at hc
    cases hc
  | ok p b' =>
    have hafter : b.after (.pin i key) = b' := after_of_ok (map_ok_iff.2 ⟨p, hpin, rfl⟩)
    have hnumbers : (b.run [.pin i key]).Numbers numbering :=
      h.run (by simp [Operation.Respects])
    have hsite := (asked_of_pin h.wellFormed.pins hc hpin).site
    rw [h.canonicalKey_eq] at hsite
    exact ⟨p, b', rfl, hafter ▸ hnumbers, growth_of_pin hpin, hsite⟩

/-- Asked for at any two times, two keys of a component have one pin when they have one
form. -/
theorem pin_eq_iff {i : ComponentId} {c : Component α} (hc : b.components[i]? = some c)
    (key key' : String) {more : List (Operation α)}
    (hmore : ∀ op ∈ more, op.Respects numbering ∧ op.restarts = false) :
    ∃ p b₁ q b₂, pin i key b = .ok p b₁ ∧ pin i key' (b₁.run more) = .ok q b₂ ∧
      (p = q ↔ (numbering c.symbol key).getD key = (numbering c.symbol key').getD key') := by
  obtain ⟨p, b₁, hp, hnumbers, hgrowth, hsite⟩ := h.pin_ok hc key
  have hgrowth' : ReflTransGen Growth b₁ (b₁.run more) := growth_run fun op hop => (hmore op hop).2
  -- the component is still there, and it has its symbol
  have hsymbol := symbol_of_chain (hgrowth.trans hgrowth')
    (show b.components[i]?.map (·.symbol) = some c.symbol by rw [hc]; rfl)
  obtain ⟨d, hd, hdc⟩ := Option.map_eq_some_iff.1 hsymbol
  obtain ⟨q, b₂, hq, hnumbers', hgrowth'', hsite'⟩ :=
    (hnumbers.run fun op hop => (hmore op hop).1).pin_ok hd key'
  have hkept := site?_of_chain (hgrowth'.trans hgrowth'') hsite
  rw [hdc] at hsite'
  refine ⟨p, b₁, q, b₂, hp, hq, ?_, fun heq => ?_⟩
  · rintro rfl
    rw [hkept] at hsite'
    exact congrArg Prod.snd (Option.some.inj hsite')
  · exact hnumbers'.wellFormed.distinct p q _ hkept (heq ▸ hsite')

end Numbers

end Build

/-! ### Playing a definition -/

namespace ReplayM

open Build

variable {numbering : PinNumbering} {x y : ReplayM α β} {f g : β → ReplayM α γ}

/-- Two steps come to the same in circuits that have a numbering, and leave it alone. -/
def SameUnder (numbering : PinNumbering) (x y : ReplayM α β) : Prop :=
  ∀ b, b.numbering = some numbering →
    x b = y b ∧ ∀ v b', x b = .ok v b' → b'.numbering = some numbering

theorem sameUnder_bind (hx : SameUnder numbering x y)
    (hf : ∀ v, SameUnder numbering (f v) (g v)) : SameUnder numbering (x >>= f) (y >>= g) := by
  intro b hb
  obtain ⟨hxy, hkeeps⟩ := hx b hb
  cases hxb : x b with
  | ok v b₁ =>
    obtain ⟨hfg, hkeeps'⟩ := hf v b₁ (hkeeps v b₁ hxb)
    rw [stateful_bind_of_ok hxb, stateful_bind_of_ok (hxy ▸ hxb)]
    exact ⟨hfg, hkeeps'⟩
  | error e b₁ =>
    rw [stateful_bind_of_error hxb, stateful_bind_of_error (hxy ▸ hxb)]
    exact ⟨rfl, nofun⟩

theorem sameUnder_pure (v : β) : SameUnder numbering (pure v : ReplayM α β) (pure v) := by
  refine fun b hb => ⟨rfl, ?_⟩
  rintro _ _ ⟨⟩
  exact hb

theorem sameUnder_get : SameUnder numbering (get : ReplayM α (Build α)) get := by
  refine fun b hb => ⟨rfl, ?_⟩
  rintro _ _ ⟨⟩
  exact hb

theorem sameUnder_self (h : ∀ b v b', x b = .ok v b' → b'.numbering = b.numbering) :
    SameUnder numbering x x := fun b hb => ⟨rfl, fun v b' hx => (h b v b' hx).trans hb⟩

/-- An operation leaves the numbering alone. -/
theorem sameUnder_ofBuild {x : BuildM α β} (op : Operation α)
    (hop : ∀ other, op ≠ .setNumbering other) (answer : β → Answer α)
    (hperform : op.perform = answer <$> x) :
    SameUnder numbering (ofBuild x) (ofBuild x) := by
  refine fun b hb => ⟨rfl, fun v b' h => ?_⟩
  have hok : op.perform b = .ok (answer v) b' := by
    rw [hperform]
    exact map_ok_iff.2 ⟨v, ofBuild_ok_iff.1 h, rfl⟩
  rw [numbering_of_perform hop hok, hb]

end ReplayM

namespace CircuitDef

open Build ReplayM

variable {numbering : PinNumbering} {refs composables : Names} {b b' : Build α}

section Registering

variable [Scalar α]

theorem numbering_registerReady {built : Names} {ds waiting : List (ComposableDef α)}
    {names : Names} (h : registerReady built ds b = .ok (names, waiting) b') :
    b'.numbering = b.numbering := by
  induction ds generalizing built waiting b with
  | nil =>
    cases h
    rfl
  | cons d ds ih =>
    rcases registerReady_cons h with ⟨parent, position, id, b₁, hadd, hrest⟩ | ⟨rest, -, hrest⟩
    · exact (ih hrest).trans (registers_addComposable hadd).numbering_eq
    · exact ih hrest

theorem numbering_registerAll {declared pending : List (ComposableDef α)} {built names : Names}
    (h : registerAll declared built pending b = .ok names b') : b'.numbering = b.numbering := by
  -- by induction on the number of composables that are pending: each round leaves fewer
  induction hsize : pending.length using Nat.strongRecOn generalizing built pending b with
  | ind size ih =>
    rw [registerAll] at h
    obtain ⟨⟨built₁, waiting⟩, b₁, hready, h⟩ := ReplayM.bind_ok_iff.1 h
    have hround := numbering_registerReady hready
    cases waiting with
    | nil =>
      cases h
      exact hround
    | cons stuck rest =>
      dsimp only at h
      split at h
      · next hlt => exact (ih _ (hsize ▸ hlt) h rfl).trans hround
      · cases h

theorem numbering_addComponents {composables refs names : Names} {ds : List (ComponentDef α)}
    (h : addComponents composables refs ds b = .ok names b') : b'.numbering = b.numbering := by
  induction ds generalizing refs b with
  | nil =>
    cases h
    rfl
  | cons d ds ih =>
    obtain ⟨-, spec, id, b₁, hadd, hd, hrest⟩ := addComponents_cons h
    exact (ih hrest).trans (adds_addComponent hd hadd).numbering_eq

end Registering

/-! ### Keys that are written in a definition -/

/-- Resolving a reference to a declared component asks for its pin, by the key in the form of
the definition. -/
theorem resolvePin_apply (numbering : PinNumbering) {text : String} {r : PinRef}
    {i : ComponentId} (hr : PinRef.parse? text = some r) (hi : refs.lookup r.reference = some i)
    (b : Build α) :
    resolvePin numbering refs text b =
      ofBuild (pin i ((numbering ((b.components[i]?.map (·.symbol)).getD "") r.key).getD r.key))
        b := by
  simp only [resolvePin, hr, hi, ReplayM.get_bind_apply]

section Settles

variable (hsettles : numbering.Settles)
include hsettles

/-- It asks for the key as it is written, then, in a circuit of the same numbering. -/
theorem resolvePin_eq_pin (hb : b.numbering = some numbering) {text : String} {r : PinRef}
    {i : ComponentId} (hr : PinRef.parse? text = some r)
    (hi : refs.lookup r.reference = some i) :
    resolvePin numbering refs text b = ofBuild (pin i r.key) b := by
  rw [resolvePin_apply numbering hr hi, ofBuild, ofBuild, pin_form hsettles hb]

theorem resolvePin_sameUnder (text : String) :
    SameUnder (α := α) numbering (resolvePin numbering refs text)
      (resolvePin literalPins refs text) := by
  intro b hb
  cases hr : PinRef.parse? text with
  | none =>
    simp only [resolvePin, hr]
    exact ⟨trivial, fun pin b' h => by cases h⟩
  | some r =>
    cases hi : refs.lookup r.reference with
    | none =>
      simp only [resolvePin, hr, hi]
      exact ⟨trivial, fun pin b' h => by cases h⟩
    | some i =>
      rw [resolvePin_eq_pin hsettles hb hr hi, resolvePin_apply literalPins hr hi]
      have hop : ∀ other, Operation.pin (α := α) i r.key ≠ .setNumbering other :=
        fun other h => by cases h
      exact sameUnder_ofBuild (.pin i r.key) hop .pin rfl b hb

theorem tieAll_sameUnder (net : NetId) (texts : List String) :
    SameUnder (α := α) numbering (tieAll numbering refs net texts)
      (tieAll literalPins refs net texts) := by
  induction texts with
  | nil => exact sameUnder_pure _
  | cons text texts ih =>
    rw [tieAll, tieAll]
    exact sameUnder_bind (resolvePin_sameUnder hsettles text) fun pin =>
      sameUnder_bind (sameUnder_ofBuild (.tie net (.pin pin)) nofun (fun _ => .done) rfl)
        fun _ => ih

theorem addNets_sameUnder (ds : List NetDef) :
    SameUnder (α := α) numbering (addNets numbering refs ds) (addNets literalPins refs ds) := by
  induction ds with
  | nil => exact sameUnder_pure _
  | cons d ds ih =>
    rw [addNets, addNets]
    exact sameUnder_bind (sameUnder_ofBuild (.addNet d.name) nofun .net rfl) fun net =>
      sameUnder_bind (sameUnder_ofBuild (.setPower net d.power) nofun (fun _ => .done) rfl)
        fun _ => sameUnder_bind (tieAll_sameUnder hsettles net d.pins) fun _ => ih

theorem exposePorts_sameUnder (composable : ComposableId) (ports : List (String × String)) :
    SameUnder (α := α) numbering (exposePorts numbering refs composable ports)
      (exposePorts literalPins refs composable ports) := by
  induction ports with
  | nil => exact sameUnder_pure _
  | cons port ports ih =>
    have hexpose : ∀ net, SameUnder (α := α) numbering
        (do
          ofBuild (expose composable port.1 net)
          exposePorts numbering refs composable ports)
        (do
          ofBuild (expose composable port.1 net)
          exposePorts literalPins refs composable ports) := fun net =>
      sameUnder_bind
        (sameUnder_ofBuild (.expose composable port.1 net) nofun (fun _ => .done) rfl) fun _ => ih
    rw [exposePorts, exposePorts]
    refine sameUnder_bind (resolvePin_sameUnder hsettles port.2) fun pin =>
      sameUnder_bind sameUnder_get fun b => ?_
    dsimp only
    split
    · exact sameUnder_bind (sameUnder_pure _) hexpose
    · exact sameUnder_bind (sameUnder_ofBuild (.addNet (some port.1)) nofun .net rfl) fun net =>
        sameUnder_bind (sameUnder_ofBuild (.tie net (.pin pin)) nofun (fun _ => .done) rfl)
          fun _ => sameUnder_bind (sameUnder_pure net) hexpose

theorem exposeAll_sameUnder (ds : List (ComposableDef α)) :
    SameUnder numbering (exposeAll numbering refs composables ds)
      (exposeAll literalPins refs composables ds) := by
  induction ds with
  | nil => exact sameUnder_pure _
  | cons d ds ih =>
    rw [exposeAll, exposeAll]
    split
    · exact sameUnder_bind (exposePorts_sameUnder hsettles _ _) fun _ => ih
    · exact ih

theorem markAll_sameUnder (ds : List NoConnectDef) :
    SameUnder (α := α) numbering (markAll numbering refs ds) (markAll literalPins refs ds) := by
  induction ds with
  | nil => exact sameUnder_pure _
  | cons d ds ih =>
    rw [markAll, markAll]
    exact sameUnder_bind (resolvePin_sameUnder hsettles d.pin) fun pin =>
      sameUnder_bind (sameUnder_ofBuild (.markNoConnect pin d.reason) nofun .component rfl)
        fun _ => ih

/-- In a circuit that gives keys their form, playing a definition whose keys have been given
that form before comes to the same as playing it with the keys as they are written. -/
theorem replay_sameUnder [Scalar α] (circuit : CircuitDef α) :
    SameUnder numbering (circuit.replay numbering) (circuit.replay literalPins) := by
  rw [replay, replay]
  exact sameUnder_bind (sameUnder_self fun b v b' => numbering_registerAll) fun composables =>
    sameUnder_bind (sameUnder_self fun b v b' => numbering_addComponents) fun refs =>
    sameUnder_bind (addNets_sameUnder hsettles _) fun _ =>
    sameUnder_bind (exposeAll_sameUnder hsettles _) fun _ => markAll_sameUnder hsettles _

end Settles

end CircuitDef

end Schematic
