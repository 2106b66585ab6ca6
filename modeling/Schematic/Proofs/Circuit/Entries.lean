import Schematic.Proofs.Circuit.Addressing

/-!
# The nets of a definition

Each declared net starts as a net of its own and its pins are tied to it one by
one.  A pin that an earlier entry lists too brings that entry's net along, so
that entries with pins in common end up as one net: the net that an entry has
come to is its *home*.

## Main definitions

* `Linked` — two things are linked by a chain in which neighbours are listed together.
* `CircuitDef.listing` — the places that the entries list.
* `Build.Powered` — a net is a power net when an entry that has come to it says so.
* `Build.Laid` — the invariant: the links made so far are what the entries list.
* `Build.Settled` — where the entries and their pins have come to in the end.

## Main statements

* `Build.Laid.tie` — tying one more pin.
* `CircuitDef.addNets_laid` — the nets of all entries.
* `Build.Laid.settled` — entries have come to one net when a chain of shared pins
  links them.
-/

namespace Schematic

open Relation (ReflTransGen)

/-- Two things are linked by a chain in which any two neighbours are listed together. -/
def Linked {ι β : Type} (lists : ι → β → Prop) : β → β → Prop :=
  ReflTransGen fun x y => ∃ i, lists i x ∧ lists i y

section Linked

variable {ι β : Type} {lists : ι → β → Prop}

/-- What is listed by linked entries is linked. -/
theorem linked_of_entries {i j : ι} (h : Linked (fun x i => lists i x) i j) {x y : β}
    (hx : lists i x) (hy : lists j y) : Linked lists x y := by
  induction h generalizing y with
  | refl => exact .single ⟨i, hx, hy⟩
  | @tail j k _ hshare ih =>
    obtain ⟨z, hz, hz'⟩ := hshare
    exact (ih hz).tail ⟨k, hz', hy⟩

/-- Different things that are linked are listed by linked entries. -/
theorem entries_of_linked {x y : β} (h : Linked lists x y) (hne : x ≠ y) :
    ∃ i j, lists i x ∧ lists j y ∧ Linked (fun x i => lists i x) i j := by
  induction h with
  | refl => exact absurd rfl hne
  | @tail z y _ hlast ih =>
    obtain ⟨k, hz, hy⟩ := hlast
    by_cases hxz : x = z
    · exact ⟨k, k, hxz ▸ hz, hy, .refl⟩
    · obtain ⟨i, j, hx, hz', hij⟩ := ih hxz
      exact ⟨i, k, hx, hy, hij.tail ⟨z, hz', hz⟩⟩

end Linked

variable {α : Type}

namespace Build

variable {b b' b'' : Build α} {made : List (Tie × NetId)} {home : NetId → NetId}
  {power : List Bool} {ls : List ((ComponentId × String) × NetId)}

/-! ### Power -/

/-- A net is a power net exactly when an entry that has come to it says so. -/
def Powered (b : Build α) (home : NetId → NetId) (power : List Bool) : Prop :=
  ∀ m net, b.net? m = some net → (net.power = true ↔ ∃ k, power[k]? = some true ∧ home k = m)

/-- Pins can be put on nets without changing which nets are power nets. -/
theorem Powered.congr (h : b.Powered home power)
    (same : ∀ m, (b'.net? m).map (·.power) = (b.net? m).map (·.power)) :
    b'.Powered home power := by
  intro m net hnet
  have hpower : (b.net? m).map (·.power) = some net.power := by rw [← same, hnet]; rfl
  obtain ⟨old, hold, heq⟩ := Option.map_eq_some_iff.1 hpower
  exact heq ▸ h m old hold

/-- A net that is moved into another one brings its entries along. -/
theorem Powered.absorb (h : b.Powered home power) {net source : NetId} {n r : Net}
    (ne : net ≠ source) (live : b.net? net = some n) (other : b.net? source = some r) :
    (b.absorb net source r).Powered (fun k => moved net source (home k)) power := by
  intro m x hx
  rw [absorb_net? b ne] at hx
  have hmoved : ∀ k, moved net source (home k) = m ↔
      m ≠ source ∧ (home k = m ∨ m = net ∧ home k = source) := fun k => by
    simpa using map_moved_eq_some ne (o := some (home k)) (m := m)
  simp only [hmoved]
  split at hx
  · cases hx
  next hs =>
  split at hx
  · next hm =>
    subst hm
    rw [live] at hx
    cases hx
    simp only [Net.absorb, Bool.or_eq_true, h net n live, h source r other, true_and,
      and_or_left, exists_or, ne_eq, ne, not_false_eq_true]
  · next hm =>
    rw [h m x hx]
    simp [Ne.symm hs, Ne.symm hm]

/-- A net that is put for one more entry. -/
theorem Powered.put (h : b.Powered home power) (hhomes : b.Housed home)
    (hsize : b.nets.size = power.length) (name : Option String) (on : Bool) :
    ((b.putNet name).modifyNet b.nets.size fun n => { n with power := on }).Powered home
      (power ++ [on]) := by
  have hnew : ∀ k, (power ++ [on])[k]? = some true ↔
      power[k]? = some true ∨ k = b.nets.size ∧ on = true := by
    intro k
    rw [hsize, List.getElem?_append]
    split
    · next hlt => simp [Nat.ne_of_lt hlt]
    · next hle =>
      have hnone : power[k]? = none := List.getElem?_eq_none (Nat.le_of_not_lt hle)
      rw [hnone, List.getElem?_singleton]
      split <;> simp <;> omega
  -- the new net is its own home, and the home of no entry before
  have habove : home b.nets.size = b.nets.size := hhomes.above _ (Nat.le_refl _)
  have hbelow : ∀ k, power[k]? = some true → home k ≠ b.nets.size := by
    intro k hk
    obtain ⟨x, hx⟩ := hhomes.live k (hsize ▸ (List.getElem?_eq_some_iff.1 hk).1)
    exact Nat.ne_of_lt (lt_size_of_net? hx)
  intro m net hnet
  simp only [hnew, or_and_right, exists_or]
  rw [modifyNet_net?, putNet_net?] at hnet
  by_cases hm : m = b.nets.size
  · subst hm
    rw [if_pos rfl, if_pos rfl] at hnet
    cases hnet
    constructor
    · exact fun hon => .inr ⟨_, ⟨rfl, hon⟩, habove⟩
    · rintro (⟨k, hk, heq⟩ | ⟨-, ⟨-, hon⟩, -⟩)
      · exact absurd heq (hbelow k hk)
      · exact hon
  · rw [if_neg (Ne.symm hm), if_neg hm] at hnet
    rw [h m net hnet]
    refine ⟨.inl, fun hor => hor.resolve_right ?_⟩
    rintro ⟨k, ⟨rfl, -⟩, heq⟩
    exact hm (heq.symm.trans habove)

/-! ### The invariant -/

/-- The entries so far are laid: the links made are what the entries list, each net is where
its home says, and the pins are those that are listed. -/
structure Laid (b : Build α) (power : List Bool) (ls : List ((ComponentId × String) × NetId))
    (made : List (Tie × NetId)) (home : NetId → NetId) : Prop where
  /-- Every entry has a net. -/
  size_eq : b.nets.size = power.length
  /-- Every net has come to its home. -/
  homes : b.Homes made home
  /-- A net is a power net when an entry that has come to it says so. -/
  powered : b.Powered home power
  /-- Every link is listed. -/
  listed_of_made : ∀ x k, (x, k) ∈ made → ∃ p s, x = .pin p ∧ b.site? p = some s ∧ (s, k) ∈ ls
  /-- What is listed is linked. -/
  made_of_listed : ∀ s k, (s, k) ∈ ls → ∃ p, b.site? p = some s ∧ (.pin p, k) ∈ made
  /-- Every pin is listed. -/
  pin_listed : ∀ p s, b.site? p = some s → ∃ k, (s, k) ∈ ls

theorem Tied.site?_eq {net : NetId} {target : Tie} (t : Tied b net target b') (p : PinId) :
    b'.site? p = b.site? p := by
  cases t with
  | same live on => rfl
  | attach live known free unmarked room => exact attach_site? ..
  | absorb live on ne unmarked other room => exact absorb_site? ..

/-- A tie moves the entries along with the nets that they have come to. -/
theorem homes_powered_tied (hhomes : b.Homes made home) (hnets : b.NetsAgree)
    (h : b.Powered home power) {net : NetId} {target : Tie} (t : Tied b net target b') :
    ∃ home', b'.Homes (made ++ [(target, net)]) home' ∧ b'.Powered home' power := by
  cases t with
  | same live on =>
    exact ⟨home, hhomes.link (hhomes.place_of_netOfTie? on live) (hhomes.place_of_live live), h⟩
  | attach live known free unmarked room =>
    refine ⟨home, hhomes.attach live known free, h.congr fun m => ?_⟩
    rw [attach_net?]
    split <;> simp [Function.comp_def]
  | absorb live on ne unmarked other room =>
    exact ⟨_, hhomes.absorb hnets ne live other (hhomes.place_of_netOfTie? on other),
      h.absorb ne live other⟩

/-- One more pin is asked for and tied to the net of its entry. -/
theorem Laid.tie (h : b.Laid power ls made home) (hnets : b.NetsAgree)
    {s : ComponentId × String} {p : PinId} {net : NetId} (asked : b.Asked s p b')
    (tied : Tied b' net (.pin p) b'') :
    ∃ made' home', b''.Laid power (ls ++ [(s, net)]) made' home' := by
  have hpowered : b'.Powered home power := by
    refine h.powered.congr fun m => ?_
    rw [net?, net?, asked.nets_eq]
  obtain ⟨home', hhomes', hpowered'⟩ := homes_powered_tied (h.homes.congr asked.sameNets)
    (hnets.congr asked.sameNets) hpowered tied
  have hsite : ∀ q t, b''.site? q = some t ↔ b.site? q = some t ∨ q = p ∧ t = s := fun q t => by
    rw [tied.site?_eq, asked.site?_eq_some]
  have hsize : b''.nets.size = b.nets.size := by
    rw [← asked.nets_eq]
    cases tied with
    | same live on => rfl
    | attach live known free unmarked room => exact attach_nets_size ..
    | absorb live on ne unmarked other room => exact absorb_nets_size ..
  refine ⟨made ++ [(.pin p, net)], home', hsize.trans h.size_eq, hhomes', hpowered', ?_, ?_, ?_⟩
  · intro x k hmem
    rcases List.mem_append.1 hmem with hmem | hmem
    · obtain ⟨q, t, rfl, hq, ht⟩ := h.listed_of_made x k hmem
      exact ⟨q, t, rfl, (hsite q t).2 (.inl hq), List.mem_append_left _ ht⟩
    · cases List.mem_singleton.1 hmem
      exact ⟨p, s, rfl, (hsite p s).2 (.inr ⟨rfl, rfl⟩), by simp⟩
  · intro t k hmem
    rcases List.mem_append.1 hmem with hmem | hmem
    · obtain ⟨q, hq, hmade⟩ := h.made_of_listed t k hmem
      exact ⟨q, (hsite q t).2 (.inl hq), List.mem_append_left _ hmade⟩
    · cases List.mem_singleton.1 hmem
      exact ⟨p, (hsite p s).2 (.inr ⟨rfl, rfl⟩), by simp⟩
  · intro q t hq
    rcases (hsite q t).1 hq with hq | ⟨-, rfl⟩
    · obtain ⟨k, hk⟩ := h.pin_listed q t hq
      exact ⟨k, List.mem_append_left _ hk⟩
    · exact ⟨net, by simp⟩

/-- One more entry begins with a net of its own. -/
theorem Laid.put (h : b.Laid power ls made home) (name : Option String) (on : Bool) :
    ((b.putNet name).modifyNet b.nets.size fun n => { n with power := on }).Laid
      (power ++ [on]) ls made home where
  size_eq := by simp [modifyNet, putNet, h.size_eq]
  homes := (h.homes.putNet name).congr (sameNets_power _ _)
  powered := h.powered.put h.homes.toHoused h.size_eq name on
  listed_of_made := h.listed_of_made
  made_of_listed := h.made_of_listed
  pin_listed := h.pin_listed

/-! ### Where the entries have come to -/

/-- Where the entries and their pins have come to. -/
structure Settled (b : Build α) (power : List Bool) (ls : List ((ComponentId × String) × NetId))
    (home : NetId → NetId) : Prop where
  /-- The pins are those that are listed. -/
  listed : ∀ s, (∃ p, b.site? p = some s) ↔ ∃ k, (s, k) ∈ ls
  /-- The home of an entry is live. -/
  live : ∀ k, k < power.length → ∃ net, b.net? (home k) = some net
  /-- A pin is on the net that has come of every entry that lists it. -/
  pin : ∀ p s k, b.site? p = some s → (s, k) ∈ ls → b.netOf? p = some (home k)
  /-- Entries have come to one net when a chain of shared pins links them. -/
  home_eq_iff : ∀ j k, j < power.length → k < power.length →
    (home j = home k ↔ Linked (fun s k => (s, k) ∈ ls) j k)
  /-- A net is a power net when an entry that has come to it says so. -/
  powered : b.Powered home power

/-- What a walk from an entry passes: entries that are linked to it, and pins that these
list. -/
def Near (b : Build α) (ls : List ((ComponentId × String) × NetId)) (j : NetId) : Tie → Prop
  | .net k => Linked (fun s k => (s, k) ∈ ls) j k
  | .pin p => ∃ s k, b.site? p = some s ∧ (s, k) ∈ ls ∧ Linked (fun s k => (s, k) ∈ ls) j k

theorem Laid.near_of_adj (h : b.Laid power ls made home) {j : NetId} {x y : Tie}
    (hadj : (linkGraph made).Adj x y) (hx : b.Near ls j x) : b.Near ls j y := by
  -- a link joins a pin and the entry that lists it, and is passed either way
  obtain ⟨-, ⟨n, rfl, hmade⟩ | ⟨n, rfl, hmade⟩⟩ := linkGraph_adj.1 hadj
  · obtain ⟨p, s, rfl, hp, hs⟩ := h.listed_of_made _ _ hmade
    obtain ⟨t, k, ht, hk, hjk⟩ := hx
    rw [hp] at ht
    cases ht
    exact hjk.tail ⟨s, hk, hs⟩
  · obtain ⟨p, s, rfl, hp, hs⟩ := h.listed_of_made _ _ hmade
    exact ⟨s, n, hp, hs, hx⟩

/-- Entries that are connected by links share pins all along. -/
theorem Laid.linked_of_reachable (h : b.Laid power ls made home) {j k : NetId}
    (hr : (linkGraph made).Reachable (.net j) (.net k)) :
    Linked (fun s k => (s, k) ∈ ls) j k := by
  rw [SimpleGraph.reachable_iff_reflTransGen] at hr
  have hnear : ∀ x, ReflTransGen (linkGraph made).Adj (.net j) x → b.Near ls j x := by
    intro x hx
    induction hx with
    | refl => exact .refl
    | tail _ hadj ih => exact h.near_of_adj hadj ih
  exact hnear _ hr

/-- A pin is on the net that has come of every entry that lists it. -/
theorem Laid.netOf?_eq (h : b.Laid power ls made home) (hpins : b.PinsOwned) {p : PinId}
    {s : ComponentId × String} {k : NetId} (hp : b.site? p = some s) (hs : (s, k) ∈ ls) :
    b.netOf? p = some (home k) := by
  obtain ⟨q, hq, hmade⟩ := h.made_of_listed s k hs
  obtain rfl := hpins.eq_of_site? hp hq
  obtain ⟨m, hm, hk⟩ := h.homes.agree _ _ hmade
  rw [place] at hk
  split at hk
  · exact hm.trans hk.symm
  · cases hk

/-- When all entries are laid, those that a chain of shared pins links have come to one
net. -/
theorem Laid.settled (h : b.Laid power ls made home) (hpins : b.PinsOwned) :
    b.Settled power ls home where
  listed s := by
    refine ⟨fun ⟨p, hp⟩ => h.pin_listed p s hp, fun ⟨k, hk⟩ => ?_⟩
    obtain ⟨p, hp, -⟩ := h.made_of_listed s k hk
    exact ⟨p, hp⟩
  live k hk := h.homes.live k (h.size_eq ▸ hk)
  pin p s k hp hs := h.netOf?_eq hpins hp hs
  home_eq_iff j k hj hk := by
    have hplace : ∀ i, i < power.length → b.place home (.net i) = some (home i) := fun i hi => by
      rw [place, if_pos (h.size_eq ▸ hi)]
    constructor
    · intro heq
      refine h.linked_of_reachable ?_
      exact (h.homes.reach _ _ (hplace j hj)).trans (heq ▸ h.homes.reach _ _ (hplace k hk)).symm
    · -- entries that share a pin have both come to the net of that pin
      intro hlinked
      clear hk
      induction hlinked with
      | refl => rfl
      | tail _ hshare ih =>
        obtain ⟨s, hs, hs'⟩ := hshare
        obtain ⟨p, hp, -⟩ := h.made_of_listed s _ hs
        rw [ih, ← Option.some.injEq, ← h.netOf?_eq hpins hp hs, h.netOf?_eq hpins hp hs']
  powered := h.powered

end Build

/-! ### Playing the entries -/

namespace CircuitDef

open Build

/-- The places that entries list, with the nets that the entries begin with. -/
def listing (site : String → Option (ComponentId × String)) (next : NetId) :
    List NetDef → List ((ComponentId × String) × NetId)
  | [] => []
  | d :: ds => (d.pins.filterMap site).map (·, next) ++ listing site (next + 1) ds

theorem mem_listing {site : String → Option (ComponentId × String)} {next : NetId}
    {ds : List NetDef} {s : ComponentId × String} {k : NetId} :
    (s, k) ∈ listing site next ds ↔
      ∃ i d text, ds[i]? = some d ∧ k = next + i ∧ text ∈ d.pins ∧ site text = some s := by
  induction ds generalizing next with
  | nil => simp [listing]
  | cons d ds ih =>
    rw [listing, List.mem_append, ih]
    constructor
    · rintro (hmem | ⟨i, e, text, he, rfl, htext, hs⟩)
      · obtain ⟨t, ht, heq⟩ := List.mem_map.1 hmem
        cases heq
        obtain ⟨text, htext, hs⟩ := List.mem_filterMap.1 ht
        exact ⟨0, d, text, rfl, rfl, htext, hs⟩
      · exact ⟨i + 1, e, text, he, Nat.add_right_comm next 1 i, htext, hs⟩
    · rintro ⟨i, e, text, he, rfl, htext, hs⟩
      cases i with
      | zero =>
        cases he
        exact .inl (List.mem_map.2 ⟨s, List.mem_filterMap.2 ⟨text, htext, hs⟩, rfl⟩)
      | succ i => exact .inr ⟨i, e, text, he, (Nat.add_right_comm next 1 i).symm, htext, hs⟩

/-- All components are declared, and none has a pin. -/
structure Declared (refs : Names) (a : Build α) : Prop where
  /-- The circuit was empty to begin with. -/
  grown : ∃ start : Build α, ReflTransGen Growth start.cleared a
  /-- The components are found by their references. -/
  refers : Refers refs a
  /-- Components are as they are without pins. -/
  bare : a.components.map Component.bare = a.components
  /-- No component is a marker. -/
  unmarked : ∀ c ∈ a.components, c.marker = false
  /-- There are no pins. -/
  pins_eq : a.pins = #[]
  /-- There are no nets. -/
  nets_eq : a.nets = #[]

variable {a b b' : Build α} {numbering : PinNumbering} {refs : Names} {power : List Bool}
  {ls : List ((ComponentId × String) × NetId)}

theorem Declared.wellFormed_of (ha : Declared refs a) (h : Connects a b) : b.WellFormed := by
  obtain ⟨start, hstart⟩ := ha.grown
  exact wellFormed_of_chain (hstart.trans h.chain)

theorem Declared.owned_of (ha : Declared refs a) (h : Connects a b) : b.PinsOwned :=
  (ha.wellFormed_of h).pins

theorem Declared.agree_of (ha : Declared refs a) (h : Connects a b) : b.NetsAgree :=
  (ha.wellFormed_of h).nets

theorem Declared.laid (ha : Declared refs a) : a.Laid [] [] [] id where
  size_eq := by rw [ha.nets_eq]; rfl
  homes := (homes_cleared a).congr (.of_eq ha.nets_eq ha.pins_eq)
  powered m net hnet := by simp [net?, ha.nets_eq] at hnet
  listed_of_made _ _ hmem := by cases hmem
  made_of_listed _ _ hmem := by cases hmem
  pin_listed p s hp := by simp [site?, ha.pins_eq] at hp

/-- The pins of an entry are tied to its net. -/
theorem tieAll_laid (ha : Declared refs a) {texts : List String} {net : NetId} {u : Unit}
    (hab : Connects a b) (h : ∃ made home, b.Laid power ls made home)
    (ok : tieAll numbering refs net texts b = .ok u b') :
    Connects a b' ∧ ∃ made home, b'.Laid power
      (ls ++ (texts.filterMap (siteOf? numbering refs a)).map (·, net)) made home := by
  induction texts generalizing b ls with
  | nil =>
    cases ok
    exact ⟨hab, by simpa using h⟩
  | cons text texts ih =>
    simp only [tieAll, ReplayM.bind_ok_iff, ReplayM.ofBuild_ok_iff, tie_ok_iff] at ok
    obtain ⟨p, b₁, hresolve, -, b₂, htied, hrest⟩ := ok
    obtain ⟨s, hs, hasked⟩ := resolvePin_ok (ha.owned_of hab) hresolve
    rw [siteOf?_eq ha.refers hab] at hs
    obtain ⟨made, home, h⟩ := h
    have hab₂ := (hab.trans hasked.connects).trans htied.connects
    have htie := h.tie (ha.agree_of hab) hasked htied
    simpa [hs] using ih hab₂ htie hrest

/-- The entries are laid one after the other. -/
theorem addNets_laid (ha : Declared refs a) {ds : List NetDef} {u : Unit}
    (hab : Connects a b) (h : ∃ made home, b.Laid power ls made home)
    (ok : addNets numbering refs ds b = .ok u b') :
    Connects a b' ∧ ∃ made home, b'.Laid (power ++ ds.map (·.power))
      (ls ++ listing (siteOf? numbering refs a) power.length ds) made home := by
  induction ds generalizing b power ls with
  | nil =>
    cases ok
    exact ⟨hab, by simpa [listing] using h⟩
  | cons d ds ih =>
    simp only [addNets, ReplayM.bind_ok_iff, ReplayM.ofBuild_ok_iff, addNet_apply, setPower,
      changeNet_ok_iff] at ok
    obtain ⟨net, _, ⟨⟩, -, b₁, ⟨-, rfl⟩, _, b₂, htie, hrest⟩ := ok
    obtain ⟨made, home, h⟩ := h
    have hab₁ := (hab.trans (connects_putNet d.name)).trans (connects_power b.nets.size d.power)
    obtain ⟨hab₂, h₂⟩ := tieAll_laid ha hab₁ ⟨made, home, h.put d.name d.power⟩ htie
    simpa [listing, h.size_eq] using ih hab₂ h₂ hrest

end CircuitDef

end Schematic
