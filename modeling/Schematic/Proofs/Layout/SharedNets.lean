import Mathlib.Data.Set.Card
import Schematic.Circuit.Connection
import Schematic.Proofs.Circuit.NetRecords
import Schematic.Proofs.Layout.Chain

/-!
# Components that share nets

A net joins components if at least two functional pins are on it.  The graph of a netlist is
filled net by net.  Its two tables, the nets of each component and the components of each net,
are told of the same pairs and so hold one relation, and what is asked of the graph is read
off that: neighbours, and how many nets two groups share.  All of this is said here of the pins
themselves, so that markers and nets with a single pin can be seen to make no difference.

## Main definitions

* `Netlist.Joining`, `Netlist.Touches` — nets that join components, and components with a
  functional pin on a net.
* `Netlist.netsAt` — the nets that join a group of components to something.
* `SetTable`, `ConnectionGraph.Holds` — a table of sets, and two tables of one relation.
* `CountsShared` — a matrix of the numbers of nets that groups share.
* `ConnectionGraph.Shows` — a graph that shows what the nets of a netlist join.

## Main statements

* `Netlist.WellFormed.mem_joined_iff` — the components that a net joins.
* `ConnectionGraph.Holds.join` — both tables are told of a pair.
* `ConnectionGraph.holds_ofNetlist` — the relation that the tables hold in the end.
* `encard_inter_eq_sharedNets` — shared nets are counted once.
* `Netlist.WellFormed.shows_ofNetlist` — the graph of a well-formed netlist.
* `Build.drain_connections` — so it is for every netlist that is handed out.
-/

namespace Schematic

variable {α : Type}

/-! ### Nets that join components -/

namespace Netlist

/-- At least two functional pins are on a net. -/
def Joining (n : Netlist α) (net : NetId) : Prop :=
  ∃ p q, p ≠ q ∧ n.OnNet p net ∧ n.OnNet q net

/-- A component has a functional pin on a net. -/
def Touches (n : Netlist α) (c : ComponentId) (net : NetId) : Prop :=
  ∃ p x, n.pins[p]? = some x ∧ x.component = c ∧ n.OnNet p net

/-- The nets that join a member of a group to something. -/
def netsAt (n : Netlist α) (group : List ComponentId) : Set NetId :=
  {net | n.Joining net ∧ ∃ c ∈ group, n.Touches c net}

variable {n : Netlist α} {c d : ComponentId} {net : NetId}

section WellFormed

open ConnectionGraph (joined)

variable (h : n.WellFormed)
include h

theorem WellFormed.net_lt_of_onNet {p : PinId} (hp : n.OnNet p net) : net < n.nets.size := by
  refine Nat.lt_of_not_le fun hle => ?_
  rw [← h.mem_functionalPins_iff, functionalPins_eq_nil hle] at hp
  cases hp

theorem WellFormed.net_lt_of_joining (hnet : n.Joining net) : net < n.nets.size := by
  obtain ⟨p, -, -, hp, -⟩ := hnet
  exact h.net_lt_of_onNet hp

theorem WellFormed.component_lt_of_touches (hc : n.Touches c net) : c < n.components.size := by
  obtain ⟨p, x, hx, rfl, -⟩ := hc
  exact h.component_lt hx

/-- No pin is counted twice. -/
theorem WellFormed.two_le_functionalPins_iff :
    2 ≤ (n.functionalPins net).length ↔ n.Joining net := by
  rw [← List.toFinset_card_of_nodup (h.functionalPins_nodup net), Nat.succ_le_iff,
    Finset.one_lt_card]
  simp only [List.mem_toFinset, h.mem_functionalPins_iff]
  constructor
  · rintro ⟨p, hp, q, hq, hne⟩
    exact ⟨p, q, hne, hp, hq⟩
  · rintro ⟨p, q, hne, hp, hq⟩
    exact ⟨p, hp, q, hq, hne⟩

/-- The components that a net joins are those with a functional pin on it, if there are two
such pins at least. -/
theorem WellFormed.mem_joined_iff : c ∈ joined n net ↔ n.Joining net ∧ n.Touches c net := by
  simp only [joined]
  split
  · next hfew =>
    have hnone : ¬n.Joining net := fun hnet =>
      absurd (h.two_le_functionalPins_iff.2 hnet) (Nat.not_le_of_lt hfew)
    exact iff_of_false List.not_mem_nil fun hnet => hnone hnet.1
  · next hmany =>
    have hnet := h.two_le_functionalPins_iff.1 (Nat.le_of_not_lt hmany)
    simp only [List.mem_filterMap, h.mem_functionalPins_iff, Option.map_eq_some_iff]
    constructor
    · rintro ⟨p, hp, x, hx, hxc⟩
      exact ⟨hnet, p, x, hx, hxc, hp⟩
    · rintro ⟨-, p, x, hx, hxc, hp⟩
      exact ⟨p, hp, x, hx, hxc⟩

end WellFormed

end Netlist

/-! ### Two tables of one relation -/

/-- A table has for each number the set of those that are related to it. -/
structure SetTable (table : Array (List ℕ)) (size : ℕ) (S : ℕ → ℕ → Prop) : Prop where
  /-- There are as many sets as there have to be. -/
  size_eq : table.size = size
  /-- In a set is what is related to its number. -/
  mem_iff : ∀ i a : ℕ, a ∈ table[i]?.getD [] ↔ S i a
  /-- A set is an ascending list. -/
  pairwise : ∀ i : ℕ, (table[i]?.getD []).Pairwise (· < ·)

section SetTable

variable {table : Array (List ℕ)} {size i : ℕ} {S S' : ℕ → ℕ → Prop}

theorem SetTable.congr (h : SetTable table size S) (hS : ∀ i a, S i a ↔ S' i a) :
    SetTable table size S' where
  size_eq := h.size_eq
  mem_iff i a := (h.mem_iff i a).trans (hS i a)
  pairwise := h.pairwise

theorem setTable_replicate (size : ℕ) :
    SetTable (Array.replicate size []) size fun _ _ => False := by
  have hempty : ∀ i : ℕ, (Array.replicate size ([] : List ℕ))[i]?.getD [] = [] := by
    intro i
    rw [Array.getElem?_replicate]
    split <;> rfl
  constructor
  case size_eq => exact Array.size_replicate
  case mem_iff => simp [hempty]
  case pairwise => simp [hempty]

/-- A number is put into one of the sets. -/
theorem SetTable.modify (h : SetTable table size S) (hi : i < size) (a : ℕ) :
    SetTable (table.modify i (insertNumber a)) size fun j b => S j b ∨ j = i ∧ b = a := by
  have hset : ∀ j : ℕ, (table.modify i (insertNumber a))[j]?.getD [] =
      if i = j then insertNumber a (table[j]?.getD []) else table[j]?.getD [] := by
    intro j
    rw [Array.getElem?_modify]
    split
    · next heq =>
      rw [← heq, Array.getElem?_eq_getElem (h.size_eq ▸ hi)]
      rfl
    · rfl
  constructor
  case size_eq => exact Array.size_modify.trans h.size_eq
  case mem_iff =>
    intro j b
    rw [hset]
    split
    · next heq => rw [mem_insertNumber, h.mem_iff, or_comm, and_iff_right heq.symm]
    · next hne => rw [h.mem_iff, or_iff_left fun hnew => hne hnew.1.symm]
  case pairwise =>
    intro j
    rw [hset]
    split
    · exact pairwise_insertNumber a (h.pairwise j)
    · exact h.pairwise j

end SetTable

namespace ConnectionGraph

/-- Both tables of a graph hold one relation between the nets and the components of a
netlist. -/
structure Holds (g : ConnectionGraph) (n : Netlist α) (R : NetId → ComponentId → Prop) :
    Prop where
  /-- Each component has the nets that are related to it. -/
  nets : SetTable g.nets n.components.size fun c net => R net c
  /-- Each net has the components that are related to it. -/
  members : SetTable g.members n.nets.size R

variable {n : Netlist α} {g : ConnectionGraph} {R R' : NetId → ComponentId → Prop}
  {c d : ComponentId} {net : NetId}

theorem Holds.congr (h : g.Holds n R) (hR : ∀ net c, R net c ↔ R' net c) : g.Holds n R' :=
  ⟨h.nets.congr fun c net => hR net c, h.members.congr hR⟩

theorem holds_bare (n : Netlist α) :
    (bare n.components.size n.nets.size).Holds n fun _ _ => False :=
  ⟨setTable_replicate _, setTable_replicate _⟩

/-- When a component is joined to a net, both tables are told. -/
theorem Holds.join (h : g.Holds n R) (hnet : net < n.nets.size) (hc : c < n.components.size) :
    (g.join net c).Holds n fun k d => R k d ∨ k = net ∧ d = c where
  nets := (h.nets.modify hc net).congr fun d k => by rw [and_comm]
  members := h.members.modify hnet c

theorem Holds.joinAll (h : g.Holds n R) (hnet : net < n.nets.size) {cs : List ComponentId}
    (hcs : ∀ c ∈ cs, c < n.components.size) :
    (g.joinAll net cs).Holds n fun k d => R k d ∨ k = net ∧ d ∈ cs := by
  induction cs generalizing g R with
  | nil => exact h.congr fun k d => by simp
  | cons c cs ih =>
    obtain ⟨hc, hcs⟩ := List.forall_mem_cons.1 hcs
    refine (ih (h.join hnet hc) hcs).congr fun k d => ?_
    rw [List.mem_cons, or_assoc, and_or_left]

/-- When some nets have been gone through, the tables hold what these join. -/
theorem holds_foldl_joined (h : n.WellFormed) {m : ℕ} (hm : m ≤ n.nets.size) :
    ((List.range m).foldl (fun g net => g.joinAll net (joined n net))
      (bare n.components.size n.nets.size)).Holds n fun net c => net < m ∧ c ∈ joined n net := by
  induction m with
  | zero => exact (holds_bare n).congr fun net c => by simp
  | succ m ih =>
    have hjoined : ∀ c ∈ joined n m, c < n.components.size := fun c hc =>
      h.component_lt_of_touches (h.mem_joined_iff.1 hc).2
    rw [List.range_succ, List.foldl_append]
    refine ((ih (Nat.le_of_succ_le hm)).joinAll hm hjoined).congr fun net c => ?_
    rw [Nat.lt_succ_iff_lt_or_eq, or_and_right]
    exact or_congr_right (and_congr_right fun heq => by rw [heq])

/-- In the end the tables hold which components have functional pins on the nets that join
components: there are no other nets to go through. -/
theorem holds_ofNetlist (h : n.WellFormed) :
    (ofNetlist n).Holds n fun net c => n.Joining net ∧ n.Touches c net := by
  refine (holds_foldl_joined h le_rfl).congr fun net c => ?_
  rw [h.mem_joined_iff]
  exact and_iff_right_of_imp fun hnet => h.net_lt_of_joining hnet.1

/-! ### What is asked of the graph -/

theorem nodup_netsOfGroup (g : ConnectionGraph) (group : List ComponentId) :
    (g.netsOfGroup group).Nodup :=
  (pairwise_unionOf _).imp Nat.ne_of_lt

theorem neighbours_pairwise (g : ConnectionGraph) (c : ComponentId) :
    (g.neighbours c).Pairwise (· < ·) :=
  (pairwise_unionOf _).sublist List.erase_sublist

theorem Holds.mem_netsOf (h : g.Holds n R) : net ∈ g.netsOf c ↔ R net c := h.nets.mem_iff c net

theorem Holds.mem_membersOf (h : g.Holds n R) : c ∈ g.membersOf net ↔ R net c :=
  h.members.mem_iff net c

theorem Holds.mem_netsOfGroup (h : g.Holds n R) {group : List ComponentId} :
    net ∈ g.netsOfGroup group ↔ ∃ c ∈ group, R net c := by
  simp only [netsOfGroup, mem_unionOf, List.mem_map, exists_exists_and_eq_and, h.mem_netsOf]

/-- The nets of a group are those that join a member of it to something. -/
theorem setOf_netsOfGroup (h : n.WellFormed) (group : List ComponentId) :
    {net | net ∈ (ofNetlist n).netsOfGroup group} = n.netsAt group := by
  ext net
  rw [Set.mem_ofPred_eq, (holds_ofNetlist h).mem_netsOfGroup]
  constructor
  · rintro ⟨c, hc, hnet, htouch⟩
    exact ⟨hnet, c, hc, htouch⟩
  · rintro ⟨hnet, c, hc, htouch⟩
    exact ⟨c, hc, hnet, htouch⟩

theorem Holds.mem_neighbours (h : g.Holds n R) :
    d ∈ g.neighbours c ↔ c ≠ d ∧ ∃ net, R net c ∧ R net d := by
  have hnodup := (pairwise_unionOf ((g.netsOf c).map g.membersOf)).imp Nat.ne_of_lt
  rw [neighbours, List.Nodup.mem_erase_iff hnodup, mem_unionOf, ne_comm]
  simp only [List.mem_map, exists_exists_and_eq_and, h.mem_netsOf, h.mem_membersOf]

end ConnectionGraph

/-! ### Counting shared nets -/

/-- The nets of two lists are counted once if the first one repeats none. -/
theorem encard_inter_eq_sharedNets {a b : List NetId} (ha : a.Nodup) :
    ({net | net ∈ a} ∩ {net | net ∈ b}).encard = sharedNets a b := by
  have hlist : {net | net ∈ a} ∩ {net | net ∈ b} = ((a.filter b.contains).toFinset : Set NetId) := by
    ext net
    simp
  rw [hlist, Set.encard_coe_eq_coe_finsetCard, List.toFinset_card_of_nodup (ha.filter _),
    sharedNets, List.countP_eq_length_filter]

theorem sharedNets_comm {a b : List NetId} (ha : a.Nodup) (hb : b.Nodup) :
    sharedNets a b = sharedNets b a := by
  have hcard := encard_inter_eq_sharedNets (b := b) ha
  rw [Set.inter_comm, encard_inter_eq_sharedNets hb] at hcard
  exact_mod_cast hcard.symm

theorem sharedNets_nil_left (b : List NetId) : sharedNets [] b = 0 := rfl

theorem sharedNets_nil_right (a : List NetId) : sharedNets a [] = 0 := by
  simp [sharedNets]

variable [Scalar α]

open Scalar

/-- What is no group shares nothing. -/
theorem weightAt_weightMatrix (groups : List (List NetId)) (i j : ℕ) :
    weightAt (weightMatrix groups : List (List α)) i j =
      Scalar.ofInt (if i = j then 0 else
        sharedNets (groups[i]?.getD []) (groups[j]?.getD [])) := by
  cases hi : groups[i]? with
  | none =>
    simp only [weightAt, weightMatrix, List.getElem?_mapIdx, hi, Option.map_none,
      Option.getD_none, List.getElem?_nil, sharedNets_nil_left, Nat.cast_zero, ite_self]
    rfl
  | some a =>
    cases hj : groups[j]? with
    | none =>
      simp only [weightAt, weightMatrix, List.getElem?_mapIdx, hi, hj, Option.map_none,
        Option.map_some, Option.getD_some, Option.getD_none, sharedNets_nil_right,
        Nat.cast_zero, ite_self]
      rfl
    | some b => simp [weightAt, weightMatrix, hi, hj]

/-- A matrix has the numbers of nets that groups of components share. -/
structure CountsShared (n : Netlist α) (groups : List (List ComponentId))
    (weights : List (List α)) : Prop where
  /-- There is a row for each group. -/
  rows : weights.length = groups.length
  /-- There is a column for each group. -/
  columns : ∀ row ∈ weights, row.length = groups.length
  /-- Nothing is counted within a group. -/
  diagonal : ∀ i, weightAt weights i i = 0
  /-- It does not matter which of two groups comes first. -/
  symm : ∀ i j, weightAt weights i j = weightAt weights j i
  /-- Counted are the nets with at least two functional pins that touch both groups. -/
  count : ∀ i j a b, i ≠ j → groups[i]? = some a → groups[j]? = some b →
    ∃ k : ℕ, (n.netsAt a ∩ n.netsAt b).encard = k ∧ weightAt weights i j = Scalar.ofInt k

/-- A graph shows what the nets of a netlist join. -/
structure ConnectionGraph.Shows (g : ConnectionGraph) (n : Netlist α) : Prop where
  /-- The functional pins of a net are those of components that are no markers, each once. -/
  functionalPins : ∀ net, (n.functionalPins net).Nodup ∧
    ∀ p, p ∈ n.functionalPins net ↔ n.OnNet p net
  /-- The nets of a component are in order. -/
  netsOf_pairwise : ∀ c, (g.netsOf c).Pairwise (· < ·)
  /-- They are those with at least two functional pins that it owns one of. -/
  mem_netsOf : ∀ c net, net ∈ g.netsOf c ↔ n.Joining net ∧ n.Touches c net
  /-- The neighbours of a component are in order. -/
  neighbours_pairwise : ∀ c, (g.neighbours c).Pairwise (· < ·)
  /-- No component is its own neighbour. -/
  irrefl : ∀ c, c ∉ g.neighbours c
  /-- Neighbours are neighbours of each other. -/
  symm : ∀ c d, d ∈ g.neighbours c ↔ c ∈ g.neighbours d
  /-- They are the components that share such a net. -/
  mem_neighbours : ∀ c d, d ∈ g.neighbours c ↔
    c ≠ d ∧ ∃ net, n.Joining net ∧ n.Touches c net ∧ n.Touches d net
  /-- The nets that groups share are counted. -/
  weights : ∀ groups : List (List ComponentId),
    CountsShared n groups (weightMatrix (groups.map g.netsOfGroup))

section Counting

open ConnectionGraph (ofNetlist nodup_netsOfGroup setOf_netsOfGroup holds_ofNetlist)

variable {n : Netlist α} (h : n.WellFormed)
include h

/-- Each two groups are counted as if they were two sets of nets. -/
theorem countsShared_weightMatrix (groups : List (List ComponentId)) :
    CountsShared n groups (weightMatrix (groups.map (ofNetlist n).netsOfGroup)) := by
  have hnodup : ∀ i : ℕ, ((groups.map (ofNetlist n).netsOfGroup)[i]?.getD []).Nodup := by
    intro i
    rw [List.getElem?_map]
    cases groups[i]? with
    | none => exact List.nodup_nil
    | some a => exact nodup_netsOfGroup _ a
  constructor
  case rows => simp [weightMatrix]
  case columns =>
    intro row hrow
    obtain ⟨i, hi, rfl⟩ := List.mem_mapIdx.1 hrow
    simp
  case diagonal =>
    intro i
    rw [weightAt_weightMatrix, if_pos rfl]
    rfl
  case symm =>
    intro i j
    rw [weightAt_weightMatrix, weightAt_weightMatrix, sharedNets_comm (hnodup i) (hnodup j)]
    simp only [eq_comm (a := i)]
  case count =>
    intro i j a b hne hi hj
    refine ⟨sharedNets ((ofNetlist n).netsOfGroup a) ((ofNetlist n).netsOfGroup b), ?_, ?_⟩
    · rw [← encard_inter_eq_sharedNets (nodup_netsOfGroup _ a), setOf_netsOfGroup h,
        setOf_netsOfGroup h]
    · rw [weightAt_weightMatrix, if_neg hne, List.getElem?_map, List.getElem?_map, hi, hj]
      rfl

/-- The graph of a well-formed netlist shows what its nets join. -/
theorem Netlist.WellFormed.shows_ofNetlist : (ofNetlist n).Shows n := by
  have hholds := holds_ofNetlist h
  exact {
    functionalPins := fun net => ⟨h.functionalPins_nodup net, h.mem_functionalPins_iff net⟩
    netsOf_pairwise := hholds.nets.pairwise
    mem_netsOf := fun c net => hholds.mem_netsOf
    neighbours_pairwise := ConnectionGraph.neighbours_pairwise _
    irrefl := fun c hc => (hholds.mem_neighbours.1 hc).1 rfl
    symm := fun c d => by
      rw [hholds.mem_neighbours, hholds.mem_neighbours, ne_comm]
      simp only [and_comm (a := n.Joining _ ∧ n.Touches c _)]
    mem_neighbours := fun c d => by
      rw [hholds.mem_neighbours]
      simp only [and_and_and_comm, and_self]
    weights := countsShared_weightMatrix h }

end Counting

/-! ### Netlists that are handed out -/

/-- After every run a netlist is handed out, and its graph shows what its nets join. -/
theorem Build.drain_connections (name : String) (ops : List (Operation α)) :
    let b := (new name).run ops
    ∃ n, drain b = .ok n b.cleared ∧ (ConnectionGraph.ofNetlist n).Shows n := by
  intro b
  have hwf : b.toNetlist.WellFormed := toNetlist_wellFormed (wellFormed_run name ops)
  exact ⟨b.toNetlist, rfl, hwf.shows_ofNetlist⟩

/-- Three resistors: two nets between the first two of them, on one of which the third one is,
too.  It has a marked pin and one that is alone on its net, besides. -/
def bridgedResistors : List (Operation ℚ) :=
  [.addComponent { symbol := "Device:R", reference := "R1" },
   .addComponent { symbol := "Device:R", reference := "R2" },
   .addComponent { symbol := "Device:R", reference := "R3" },
   .addNet none, .connect 0 "1" (.net 0), .connect 1 "1" (.net 0),
   .addNet none, .connect 0 "2" (.net 1), .connect 1 "2" (.net 1), .connect 2 "1" (.net 1),
   .pin 2 "2", .markNoConnect 5 none, .addNet none, .connect 2 "3" (.net 3)]

/-- The third resistor shares one net with either of the others, and they share two. -/
theorem bridgedResistors_connections :
    ∃ n, Build.drain ((Build.new "t").run bridgedResistors) =
        .ok n ((Build.new "t").run bridgedResistors).cleared ∧
      (ConnectionGraph.ofNetlist n).Shows n ∧
      n.nets.size = 4 ∧
      (ConnectionGraph.ofNetlist n).netsOf 2 = [1] ∧
      (ConnectionGraph.ofNetlist n).neighbours 2 = [0, 1] ∧
      (weightMatrix ([[0], [1], [2, 3]].map (ConnectionGraph.ofNetlist n).netsOfGroup) :
        List (List ℚ)) = [[0, 2, 1], [2, 0, 1], [1, 1, 0]] ∧
      (n.netsAt [0] ∩ n.netsAt [1]).encard = 2 := by
  obtain ⟨n, hn, hshows⟩ := Build.drain_connections "t" bridgedResistors
  cases hn
  refine ⟨_, rfl, hshows, by decide +kernel, by decide +kernel, by decide +kernel,
    by decide +kernel, ?_⟩
  obtain ⟨k, hk, hweight⟩ :=
    (hshows.weights [[0], [1], [2, 3]]).count 0 1 [0] [1] (by decide) rfl rfl
  have htwo : (k : ℤ) = 2 := by
    apply Int.cast_injective (α := ℚ)
    exact hweight.symm.trans (by decide +kernel)
  rw [hk]
  exact_mod_cast htwo

end Schematic
