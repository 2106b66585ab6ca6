import Schematic.Proofs.Circuit.Finished

/-!
# Handing out the netlist

A net that was merged into another one has left an empty slot.  The netlist that
is handed out has no such slots: the live nets move down, in the order they were
created, and every number of a net that is stored anywhere moves along.  The
numbers of pins, components and composables stay.

## Main definitions

* `Build.NetsStored` — the nets that composables store were made.
* `Build.compactNumber` — the number that a live net gets.
* `Build.Compacts` — a netlist is a circuit without its empty slots.

## Main statements

* `Build.NetsStored.grow` — every elementary change stores only nets that were made.
* `Build.toNetlist_wellFormed` — the netlist of a well-formed circuit is well-formed.
* `Build.drain_run` — what is handed out after every run, and what is left.
-/

namespace Schematic

namespace Build

variable {α : Type} {b b' : Build α}

/-! ### The nets that composables store -/

/-- The nets that a composable stores, none when there is no such composable. -/
def storedOf (b : Build α) (composable : ComposableId) : List NetId :=
  (b.composables[composable]?.map (·.storedNets)).getD []

/-- The nets that composables store were made. -/
def NetsStored (b : Build α) : Prop :=
  ∀ i, ∀ net ∈ b.storedOf i, net < b.nets.size

theorem addChild_storedOf (b : Build α) (parent : Option ComposableId) (child : Child)
    (i : ComposableId) : (b.addChild parent child).storedOf i = b.storedOf i := by
  cases parent with
  | none => rfl
  | some id =>
    simp only [addChild, storedOf, Array.getElem?_modify]
    split <;> simp [Function.comp_def, Composable.storedNets]

/-- A new composable stores no nets. -/
theorem putComposable_storedOf (b : Build α) (name : String) (parent : Option ComposableId)
    (position : Option (Placement α)) (i : ComposableId) :
    (b.putComposable name parent position).storedOf i = b.storedOf i := by
  rw [putComposable, addChild_storedOf]
  simp only [storedOf, Array.getElem?_push]
  split
  · next h =>
    subst h
    simp [Composable.storedNets]
    rfl
  · rfl

theorem mem_setPort_storedOf {composable : ComposableId} {name : String} {net : NetId}
    {i : ComposableId} {k : NetId} (h : k ∈ (b.setPort composable name net).storedOf i) :
    k = net ∨ k ∈ b.storedOf i := by
  simp only [storedOf, setPort, Array.getElem?_modify] at h ⊢
  split at h
  · cases hc : b.composables[i]? with
    | none => simp [hc] at h
    | some c =>
      simp only [hc, Option.map_some, Option.getD_some, Composable.storedNets, List.mem_append,
        List.mem_map] at h ⊢
      rcases h with ⟨e, he, rfl⟩ | h
      · rcases Table.eq_or_mem_of_mem_insert he with rfl | he
        · exact .inl rfl
        · exact .inr (.inl ⟨e, he, rfl⟩)
      · exact .inr (.inr h)
  · exact .inr h

/-- An interface that is kept names ports, and live nets. -/
theorem mem_setInterface_storedOf {composable : ComposableId} {i : ComposableId} {k : NetId}
    (h : k ∈ (b.setInterface composable (b.currentInterface composable)).storedOf i) :
    k ∈ b.storedOf i ∨ ∃ x ∈ b.liveNets, x.id = k := by
  simp only [storedOf, setInterface, Array.getElem?_modify] at h ⊢
  split at h
  · next heq =>
    subst heq
    cases hc : b.composables[composable]? with
    | none => simp [hc] at h
    | some c =>
      simp only [hc, currentInterface, Composable.storedNets, Option.map_some, Option.getD_some,
        List.mem_append, List.mem_map, List.mem_filter] at h ⊢
      rcases h with h | h | ⟨x, ⟨hx, -⟩, rfl⟩
      · exact .inl (.inl h)
      · exact .inl (.inl h)
      · exact .inr ⟨x, hx, rfl⟩
  · exact .inl h

theorem exists_net?_of_mem_liveNets {x : Net} (h : x ∈ b.liveNets) : ∃ k, b.net? k = some x := by
  simp only [liveNets, List.mem_filterMap, id] at h
  obtain ⟨_, hmem, rfl⟩ := h
  obtain ⟨k, hk, heq⟩ := List.getElem_of_mem hmem
  refine ⟨k, net?_eq_some.2 ?_⟩
  rw [← heq]
  simp

/-- Every elementary change stores only nets that were made. -/
theorem NetsStored.grow (h : b.NetsStored) (hnumbered : b.Numbered) (g : Growth b b') :
    b'.NetsStored := by
  -- most changes store nothing, and nets are never taken out of their slots
  have congr : (∀ i, b'.storedOf i = b.storedOf i) → b.nets.size ≤ b'.nets.size →
      b'.NetsStored := fun hstored hsize i net hnet =>
    Nat.lt_of_lt_of_le (h i net (hstored i ▸ hnet)) hsize
  cases g with
  | component known => exact congr (fun i => addChild_storedOf ..) (by simp)
  | marker bare => exact congr (fun _ => rfl) (Nat.le_refl _)
  | composable known => exact congr (fun i => putComposable_storedOf ..) (by simp)
  | net => exact congr (fun _ => rfl) (by simp [putNet])
  | power => exact congr (fun _ => rfl) (by simp [modifyNet])
  | numbering => exact congr (fun _ => rfl) (Nat.le_refl _)
  | pin known new => exact congr (fun _ => rfl) (Nat.le_refl _)
  | attach live known free room => exact congr (fun _ => rfl) (by simp)
  | absorb ne live other room => exact congr (fun i => by simp [storedOf]) (by simp)
  | noConnect on beside isMarker => exact congr (fun _ => rfl) (Nat.le_refl _)
  | port live =>
    intro i k hk
    rcases mem_setPort_storedOf hk with rfl | hk
    · exact lt_size_of_net? live
    · exact h i k hk
  | interface =>
    intro i k hk
    rcases mem_setInterface_storedOf hk with hk | ⟨x, hx, rfl⟩
    · exact h i k hk
    · obtain ⟨m, hm⟩ := exists_net?_of_mem_liveNets hx
      rw [hnumbered.net m x hm]
      exact lt_size_of_net? hm

theorem netsStored_cleared (b : Build α) : b.cleared.NetsStored := by
  intro i net hnet
  cases hnet

/-- The nets that composables store were made, after every run. -/
theorem netsStored_run (name : String) (ops : List (Operation α)) :
    ((new name).run ops).NetsStored := by
  have h : ((new name).run ops).Numbered ∧ ((new name).run ops).NetsStored := by
    refine run_induction (P := fun b => b.Numbered ∧ b.NetsStored)
      (fun b => ⟨numbered_cleared b, netsStored_cleared b⟩) ?_ name ops
    rintro b b' g ⟨hnumbered, h⟩
    exact ⟨hnumbered.grow g, h.grow hnumbered g⟩
  exact h.2

/-! ### Numbers without gaps -/

/-- How many live nets come before a slot: the number that the live net in it gets. -/
def compactNumber (b : Build α) (net : NetId) : NetId :=
  (b.nets.toList.take net).countP Option.isSome

section Slots

variable {slots : List (Option Net)}

/-- The new numbers count the live nets before a slot. -/
theorem getElem?_renumber (next : NetId) (k : Nat) :
    (renumber next slots)[k]? =
      slots[k]?.map fun slot => slot.map fun _ => next + (slots.take k).countP Option.isSome := by
  induction slots generalizing next k with
  | nil => rfl
  | cons slot slots ih =>
    cases slot with
    | none =>
      cases k with
      | zero => rfl
      | succ k => simp [renumber, ih]
    | some x =>
      cases k with
      | zero => rfl
      | succ k => simp [renumber, ih, Nat.add_assoc, Nat.add_comm 1]

/-- A live net comes after as many live nets as there are before its slot. -/
theorem getElem?_filterMap_take {k : Nat} {x : Net} (h : slots[k]? = some (some x)) :
    (slots.filterMap id)[(slots.take k).countP Option.isSome]? = some x := by
  induction slots generalizing k with
  | nil => cases h
  | cons slot slots ih =>
    cases k with
    | zero =>
      cases h
      rfl
    | succ k => cases slot <;> simpa using ih h

theorem exists_slot {j : Nat} {x : Net} (h : (slots.filterMap id)[j]? = some x) :
    ∃ k : Nat, slots[k]? = some (some x) ∧ (slots.take k).countP Option.isSome = j := by
  induction slots generalizing j with
  | nil => cases h
  | cons slot slots ih =>
    cases slot with
    | none =>
      obtain ⟨k, hk, hj⟩ := ih h
      exact ⟨k + 1, hk, by simpa using hj⟩
    | some y =>
      cases j with
      | zero => exact ⟨0, congrArg some h, rfl⟩
      | succ j =>
        obtain ⟨k, hk, hj⟩ := ih (j := j) h
        exact ⟨k + 1, hk, by simpa using hj⟩

/-- A live net counts for every slot that comes after its own. -/
theorem countP_take_lt {k m : Nat} {x : Net} (h : slots[k]? = some (some x)) (hkm : k < m) :
    (slots.take k).countP Option.isSome < (slots.take m).countP Option.isSome := by
  have hstep : (slots.take (k + 1)).countP Option.isSome =
      (slots.take k).countP Option.isSome + 1 := by
    rw [List.take_add_one, h, List.countP_append]
    rfl
  have hmono : (slots.take (k + 1)).countP Option.isSome ≤ (slots.take m).countP Option.isSome :=
    (List.take_prefix_take_left hkm).sublist.countP_le
  omega

end Slots

/-- A live net has its new number, and keeps what it is besides. -/
theorem liveNets_compactNumber {k : NetId} {x : Net} (h : b.net? k = some x) :
    b.liveNets[b.compactNumber k]? = some x :=
  getElem?_filterMap_take (by rw [Array.getElem?_toList]; exact net?_eq_some.1 h)

theorem exists_compactNumber {j : NetId} {x : Net} (h : b.liveNets[j]? = some x) :
    ∃ k, b.net? k = some x ∧ b.compactNumber k = j := by
  obtain ⟨k, hk, hj⟩ := exists_slot h
  rw [Array.getElem?_toList] at hk
  exact ⟨k, net?_eq_some.2 hk, hj⟩

/-- Live nets keep their order. -/
theorem compactNumber_lt {k m : NetId} {x : Net} (h : b.net? k = some x) (hkm : k < m) :
    b.compactNumber k < b.compactNumber m :=
  countP_take_lt (by rw [Array.getElem?_toList]; exact net?_eq_some.1 h) hkm

theorem compactNumber_lt_iff {k m : NetId} {x y : Net} (hk : b.net? k = some x)
    (hm : b.net? m = some y) : b.compactNumber k < b.compactNumber m ↔ k < m := by
  refine ⟨fun h => ?_, compactNumber_lt hk⟩
  rcases Nat.lt_trichotomy k m with hkm | rfl | hmk
  · exact hkm
  · exact absurd h (Nat.lt_irrefl _)
  · exact absurd (compactNumber_lt hm hmk) (Nat.lt_asymm h)

/-- Two live nets never get one number. -/
theorem compactNumber_inj {k m : NetId} {x y : Net} (hk : b.net? k = some x)
    (hm : b.net? m = some y) (h : b.compactNumber k = b.compactNumber m) : k = m := by
  rcases Nat.lt_trichotomy k m with hkm | hkm | hmk
  · exact absurd h (Nat.ne_of_lt (compactNumber_lt hk hkm))
  · exact hkm
  · exact absurd h.symm (Nat.ne_of_lt (compactNumber_lt hm hmk))

/-! ### The netlist -/

/-- Two pins are on one net. -/
def SameNet (b : Build α) (p q : PinId) : Prop := ∃ k, b.netOf? p = some k ∧ b.netOf? q = some k

/-- The live nets among some, under their new numbers. -/
def compactNets (b : Build α) (nets : List NetId) : List NetId :=
  (nets.filter fun k => (b.net? k).isSome).map b.compactNumber

/-- The ports on live nets among some, with the new numbers of their nets. -/
def compactPorts (b : Build α) (ports : List (String × NetId)) : List (String × NetId) :=
  (ports.filter fun e => (b.net? e.2).isSome).map fun e => (e.1, b.compactNumber e.2)

/-- A composable whose ports, and whose interface if it has been asked for, name the live
nets by their new numbers. -/
def compactComposable (b : Build α) (c : Composable α) : Composable α :=
  { c with
    ports := ⟨b.compactPorts c.ports.entries⟩
    interface := c.interface.map fun i =>
      { ports := b.compactPorts i.ports, bridged := b.compactNets i.bridged } }

/-- A netlist has all that a circuit has, and its live nets in order without gaps. -/
structure Compacts (b : Build α) (n : Netlist α) : Prop where
  /-- It has the name of the circuit. -/
  name_eq : n.name = b.name
  /-- It has the components of the circuit. -/
  components_eq : n.components = b.components
  /-- A net carries its place. -/
  net_id : ∀ (j : NetId) (x : Net), n.nets[j]? = some x → x.id = j
  /-- A live net is there under its new number, with its pins, its name and its power. -/
  net : ∀ k x, b.net? k = some x →
    n.nets[b.compactNumber k]? = some { x with id := b.compactNumber k }
  /-- There are no other nets. -/
  live : ∀ (j : NetId) (x : Net), n.nets[j]? = some x →
    ∃ k y, b.net? k = some y ∧ b.compactNumber k = j
  /-- The nets are in the order in which they were created. -/
  order : ∀ k m x y, b.net? k = some x → b.net? m = some y →
    (b.compactNumber k < b.compactNumber m ↔ k < m)
  /-- A pin is as it was, and names its net by the new number. -/
  pin : ∀ p : PinId, n.pins[p]? =
    b.pins[p]?.map fun x => { x with net := x.net.map b.compactNumber }
  /-- Two pins are on one net when they were. -/
  same_net_iff : ∀ p q, n.asBuild.SameNet p q ↔ b.SameNet p q
  /-- A composable is as it was, and names live nets by their new numbers. -/
  composable : ∀ i : ComposableId, n.composables[i]? = b.composables[i]?.map b.compactComposable

/-- The new number of a net, none when it is not live. -/
theorem renumber_eq (b : Build α) (net : NetId) :
    (renumber 0 b.nets.toList).toArray[net]?.join =
      (b.net? net).map fun _ => b.compactNumber net := by
  rw [List.getElem?_toArray, getElem?_renumber, Array.getElem?_toList, net?, compactNumber]
  rcases b.nets[net]? with _ | _ | _ <;> simp

/-- What a list of nets becomes: the live ones stay, under their new numbers. -/
theorem filterMap_renumber {β γ : Type} (f : β → NetId) (g : β → NetId → γ) (xs : List β) :
    (xs.filterMap fun x => ((b.net? (f x)).map fun _ => b.compactNumber (f x)).map (g x)) =
      (xs.filter fun x => (b.net? (f x)).isSome).map fun x => g x (b.compactNumber (f x)) := by
  induction xs with
  | nil => rfl
  | cons x xs ih =>
    rw [List.filterMap_cons, List.filter_cons]
    cases hx : b.net? (f x) with
    | none => exact ih
    | some y => exact congrArg (List.cons (g x (b.compactNumber (f x)))) ih

theorem toNetlist_nets (b : Build α) (j : NetId) :
    b.toNetlist.nets[j]? = b.liveNets[j]?.map fun x => { x with id := j } := by
  simp only [toNetlist, List.getElem?_toArray, List.getElem?_mapIdx]

theorem toNetlist_composables (b : Build α) :
    b.toNetlist.composables = b.composables.map b.compactComposable := by
  have hnets := filterMap_renumber (b := b) id fun _ k => k
  have hports := filterMap_renumber (b := b) (Prod.snd : String × NetId → NetId) fun e k => (e.1, k)
  simp only [Option.map_id', id] at hnets
  simp only [toNetlist, renumber_eq, Table.filterMap, hports, hnets]
  rfl

/-- The net that a pin names is live, so that it gets a new number. -/
theorem toNetlist_pins (hnets : b.NetsAgree) (p : PinId) :
    b.toNetlist.pins[p]? =
      b.pins[p]?.map fun x => { x with net := x.net.map b.compactNumber } := by
  simp only [toNetlist, renumber_eq, Array.getElem?_map]
  refine Option.map_congr fun x hx => ?_
  cases hk : x.net with
  | none => rfl
  | some k =>
    obtain ⟨y, hy, -⟩ := (hnets.netOf_iff p k).1 ((netOf?_of_pin hx).trans hk)
    simp [hy]

theorem toNetlist_netOf? (hnets : b.NetsAgree) (p : PinId) :
    b.toNetlist.asBuild.netOf? p = (b.netOf? p).map b.compactNumber := by
  change (b.toNetlist.pins[p]?).bind _ = _
  rw [toNetlist_pins hnets, netOf?]
  cases b.pins[p]? <;> rfl

theorem toNetlist_net? {k : NetId} {x : Net} (h : b.net? k = some x) :
    b.toNetlist.nets[b.compactNumber k]? = some { x with id := b.compactNumber k } := by
  rw [toNetlist_nets, liveNets_compactNumber h]
  rfl

theorem exists_of_toNetlist_nets {j : NetId} {x : Net} (h : b.toNetlist.nets[j]? = some x) :
    ∃ k y, b.net? k = some y ∧ b.compactNumber k = j ∧ x = { y with id := j } := by
  rw [toNetlist_nets] at h
  obtain ⟨y, hy, rfl⟩ := Option.map_eq_some_iff.1 h
  obtain ⟨k, hk, hj⟩ := exists_compactNumber hy
  exact ⟨k, y, hk, hj, rfl⟩

/-! ### The netlist keeps to the rules -/

theorem toNetlist_sameNet_iff (hnets : b.NetsAgree) (p q : PinId) :
    b.toNetlist.asBuild.SameNet p q ↔ b.SameNet p q := by
  simp only [SameNet, toNetlist_netOf? hnets, Option.map_eq_some_iff]
  constructor
  · rintro ⟨j, ⟨k, hp, rfl⟩, m, hq, heq⟩
    -- both old numbers are those of live nets, so that they are the same
    obtain ⟨x, hx, -⟩ := (hnets.netOf_iff p k).1 hp
    obtain ⟨y, hy, -⟩ := (hnets.netOf_iff q m).1 hq
    exact ⟨k, hp, compactNumber_inj hy hx heq ▸ hq⟩
  · rintro ⟨k, hp, hq⟩
    exact ⟨_, ⟨k, hp, rfl⟩, k, hq, rfl⟩

theorem toNetlist_netsAgree (hnets : b.NetsAgree) : b.toNetlist.asBuild.NetsAgree where
  netOf_iff p j := by
    rw [toNetlist_netOf? hnets, Option.map_eq_some_iff, Netlist.asBuild_net?]
    constructor
    · rintro ⟨k, hp, rfl⟩
      obtain ⟨x, hx, hmem⟩ := (hnets.netOf_iff p k).1 hp
      exact ⟨_, toNetlist_net? hx, hmem⟩
    · rintro ⟨x, hx, hmem⟩
      obtain ⟨k, y, hy, hj, rfl⟩ := exists_of_toNetlist_nets hx
      exact ⟨k, hnets.netOf?_of_mem hy hmem, hj⟩
  nodup j x hx := by
    rw [Netlist.asBuild_net?] at hx
    obtain ⟨k, y, hy, -, rfl⟩ := exists_of_toNetlist_nets hx
    exact hnets.nodup k y hy

theorem toNetlist_numbered (h : b.Numbered) (hnets : b.NetsAgree) :
    b.toNetlist.asBuild.Numbered where
  component := h.component
  pin := h.pin.congr fun p => by
    change b.toNetlist.pins[p]?.map _ = _
    rw [toNetlist_pins hnets, Option.map_map]
    rfl
  net j x hx := by
    rw [Netlist.asBuild_net?] at hx
    obtain ⟨k, y, -, -, rfl⟩ := exists_of_toNetlist_nets hx
    rfl
  composable := h.composable.congr fun i => by
    change b.toNetlist.composables[i]?.map _ = _
    rw [toNetlist_composables, Array.getElem?_map, Option.map_map]
    rfl

theorem toNetlist_site? (hnets : b.NetsAgree) (p : PinId) :
    b.toNetlist.asBuild.site? p = b.site? p := by
  change b.toNetlist.pins[p]?.map _ = _
  rw [toNetlist_pins hnets, Option.map_map]
  rfl

theorem toNetlist_nested (h : b.Nested) : b.toNetlist.asBuild.Nested := by
  have hparent : ∀ i, b.toNetlist.composables[i]?.map Composable.parent =
      b.composables[i]?.map Composable.parent := fun i => by
    rw [toNetlist_composables, Array.getElem?_map, Option.map_map]
    rfl
  have hchildren : ∀ i, b.toNetlist.composables[i]?.map Composable.children =
      b.composables[i]?.map Composable.children := fun i => by
    rw [toNetlist_composables, Array.getElem?_map, Option.map_map]
    rfl
  refine h.congr (fun c => ?_) fun i => ?_
  · cases c with
    | component i => rfl
    | composable i => exact hparent i
  · exact congrArg (Option.getD · []) (hchildren i)

/-- The netlist of a well-formed circuit is well-formed. -/
theorem toNetlist_wellFormed (h : b.WellFormed) : b.toNetlist.WellFormed := by
  have hnets := toNetlist_netsAgree h.nets
  have hpins : b.toNetlist.asBuild.PinsOwned :=
    h.pins.congr (fun _ => rfl) (toNetlist_site? h.nets)
  have hforest := toNetlist_nested h.forest
  refine ⟨{
    nets := hnets
    numbered := toNetlist_numbered h.numbered h.nets
    inRange := inRange_of hnets hpins hforest
    pins := hpins
    distinct := fun _ _ _ hp hq => hpins.eq_of_site? hp hq
    forest := hforest }, ?_⟩
  -- what composables store are the new numbers of live nets
  have hlt : ∀ k, (b.net? k).isSome = true → b.compactNumber k < b.toNetlist.nets.size := by
    intro k hk
    obtain ⟨x, hx⟩ := Option.isSome_iff_exists.1 hk
    exact (Array.getElem?_eq_some_iff.1 (toNetlist_net? hx)).1
  have hports : ∀ ports, ∀ k ∈ (b.compactPorts ports).map Prod.snd,
      k < b.toNetlist.nets.size := by
    intro ports k hk
    simp only [compactPorts, List.mem_map, List.mem_filter] at hk
    obtain ⟨_, ⟨e, ⟨-, hlive⟩, rfl⟩, rfl⟩ := hk
    exact hlt e.2 hlive
  intro c hc k hk
  rw [toNetlist_composables] at hc
  obtain ⟨c, -, rfl⟩ := Array.mem_map.1 hc
  rcases List.mem_append.1 hk with hk | hk
  · exact hports _ k hk
  · cases hi : c.interface with
    | none => simp [compactComposable, hi] at hk
    | some i =>
      simp only [compactComposable, hi, Option.map_some, Option.getD_some, List.mem_append] at hk
      rcases hk with hk | hk
      · exact hports _ k hk
      · obtain ⟨m, hm, rfl⟩ := List.mem_map.1 hk
        exact hlt m (List.mem_filter.1 hm).2

theorem toNetlist_compacts (h : b.WellFormed) : b.Compacts b.toNetlist where
  name_eq := rfl
  components_eq := rfl
  net_id j x hx := by
    obtain ⟨k, y, -, -, rfl⟩ := exists_of_toNetlist_nets hx
    rfl
  net k x hx := toNetlist_net? hx
  live j x hx := by
    obtain ⟨k, y, hk, hj, -⟩ := exists_of_toNetlist_nets hx
    exact ⟨k, y, hk, hj⟩
  order _ _ _ _ hk hm := compactNumber_lt_iff hk hm
  pin p := toNetlist_pins h.nets p
  same_net_iff p q := toNetlist_sameNet_iff h.nets p q
  composable i := by rw [toNetlist_composables, Array.getElem?_map]

/-- After every run a netlist is handed out and an empty circuit is left, with the name and
the pin numbering.  The netlist is the circuit without its empty slots, it is well-formed,
and it answers every query.  No number that is looked up on the way is out of range. -/
theorem drain_run [Scalar α] (name : String) (ops : List (Operation α)) :
    let b := (new name).run ops
    b.NetsStored ∧ b.InRange ∧
      ∃ n, drain b = .ok n { name := b.name, numbering := b.numbering } ∧
        b.Compacts n ∧ n.WellFormed ∧ n.Answers := by
  intro b
  have hwf : b.WellFormed := wellFormed_run name ops
  have hnetlist := toNetlist_wellFormed hwf
  exact ⟨netsStored_run name ops, hwf.inRange, b.toNetlist, rfl, toNetlist_compacts hwf, hnetlist,
    hnetlist.answers⟩

end Build

end Schematic
