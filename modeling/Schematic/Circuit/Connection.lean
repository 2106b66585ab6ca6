import Schematic.Circuit.Netlist
import Schematic.Number.Scalar

/-!
# Which components belong together

A net joins components when it has at least two functional pins.  Components
that share such a net are neighbours, and the more nets two groups of components
share, the closer together they are drawn.

The graph has two tables, one by component and one by net, which are filled
together.  Sets of numbers are ascending lists.

## Main definitions

* `insertNumber`, `insertNumbers`, `unionOf` — sets of numbers.
* `ConnectionGraph`, `ConnectionGraph.ofNetlist` — the components that each net
  joins, and the nets that join each component.
* `ConnectionGraph.netsOf`, `ConnectionGraph.netsOfGroup` — the nets that join a
  component, or a group of components, to something.
* `ConnectionGraph.neighbours` — the components that share a net with one.
* `weightMatrix` — the counts of shared nets.
-/

namespace Schematic

/-! ### Sets of numbers -/

/-- Put a number into an ascending list, unless it is there. -/
def insertNumber (a : Nat) : List Nat → List Nat
  | [] => [a]
  | b :: bs =>
      if a < b then a :: b :: bs
      else if a = b then b :: bs
      else b :: insertNumber a bs

/-- Put some numbers into an ascending list. -/
def insertNumbers (numbers into : List Nat) : List Nat :=
  numbers.foldl (fun set a => insertNumber a set) into

/-- The numbers of some sets, in ascending order. -/
def unionOf (sets : List (List Nat)) : List Nat :=
  sets.foldl (fun all set => insertNumbers set all) []

theorem mem_insertNumber {a c : Nat} {bs : List Nat} :
    c ∈ insertNumber a bs ↔ c = a ∨ c ∈ bs := by
  induction bs with
  | nil => simp [insertNumber]
  | cons b bs ih =>
    rw [insertNumber]
    split
    · rw [List.mem_cons]
    · split
      · next hab => simp [hab]
      · rw [List.mem_cons, ih, List.mem_cons, or_left_comm]

theorem pairwise_insertNumber (a : Nat) {bs : List Nat} (h : bs.Pairwise (· < ·)) :
    (insertNumber a bs).Pairwise (· < ·) := by
  induction bs with
  | nil => exact List.pairwise_singleton _ a
  | cons b bs ih =>
    obtain ⟨hb, hbs⟩ := List.pairwise_cons.1 h
    rw [insertNumber]
    split
    · next hlt =>
      refine List.pairwise_cons.2 ⟨fun c hc => ?_, h⟩
      rcases List.mem_cons.1 hc with rfl | hc
      · exact hlt
      · exact Nat.lt_trans hlt (hb c hc)
    · split
      · exact h
      · next hnlt hne =>
        refine List.pairwise_cons.2 ⟨fun c hc => ?_, ih hbs⟩
        rcases mem_insertNumber.1 hc with rfl | hc
        · omega
        · exact hb c hc

theorem mem_insertNumbers {c : Nat} {numbers into : List Nat} :
    c ∈ insertNumbers numbers into ↔ c ∈ numbers ∨ c ∈ into := by
  induction numbers generalizing into with
  | nil => simp [insertNumbers]
  | cons a numbers ih =>
    refine ih.trans ?_
    rw [mem_insertNumber, List.mem_cons, or_left_comm, or_assoc]

theorem pairwise_insertNumbers (numbers : List Nat) {into : List Nat}
    (h : into.Pairwise (· < ·)) : (insertNumbers numbers into).Pairwise (· < ·) := by
  induction numbers generalizing into with
  | nil => exact h
  | cons a numbers ih => exact ih (pairwise_insertNumber a h)

theorem mem_unionOf {c : Nat} {sets : List (List Nat)} :
    c ∈ unionOf sets ↔ ∃ set ∈ sets, c ∈ set := by
  have hfold : ∀ all : List Nat, c ∈ sets.foldl (fun all set => insertNumbers set all) all ↔
      c ∈ all ∨ ∃ set ∈ sets, c ∈ set := by
    induction sets with
    | nil => simp
    | cons set sets ih =>
      intro all
      simp only [List.foldl_cons, ih, mem_insertNumbers, List.mem_cons, exists_eq_or_imp]
      rw [or_assoc, or_left_comm]
  exact (hfold []).trans (by simp)

theorem pairwise_unionOf (sets : List (List Nat)) : (unionOf sets).Pairwise (· < ·) := by
  have hfold : ∀ all : List Nat, all.Pairwise (· < ·) →
      (sets.foldl (fun all set => insertNumbers set all) all).Pairwise (· < ·) := by
    induction sets with
    | nil => exact fun _ h => h
    | cons set sets ih => exact fun all h => ih _ (pairwise_insertNumbers set h)
  exact hfold [] .nil

/-! ### The graph -/

/-- What the nets of a circuit join. -/
structure ConnectionGraph where
  /-- The nets that join each component to something. -/
  nets : Array (List NetId)
  /-- The components that each net joins; none for a net that joins nothing. -/
  members : Array (List ComponentId)
  deriving Repr

namespace ConnectionGraph

/-- The graph of some components and nets that join none of them. -/
def bare (components nets : Nat) : ConnectionGraph :=
  { nets := Array.replicate components [], members := Array.replicate nets [] }

/-- Join a component to a net. -/
def join (g : ConnectionGraph) (net : NetId) (c : ComponentId) : ConnectionGraph :=
  { nets := g.nets.modify c (insertNumber net)
    members := g.members.modify net (insertNumber c) }

/-- Join some components to a net. -/
def joinAll (g : ConnectionGraph) (net : NetId) (cs : List ComponentId) : ConnectionGraph :=
  cs.foldl (fun g c => g.join net c) g

/-- The components that a net joins, one for each functional pin; none when
there are fewer than two functional pins. -/
def joined {α : Type} (n : Netlist α) (net : NetId) : List ComponentId :=
  let pins := n.functionalPins net
  if pins.length < 2 then []
  else pins.filterMap fun p => n.pins[p]?.map (·.component)

/-- The connections of a netlist, net by net. -/
def ofNetlist {α : Type} (n : Netlist α) : ConnectionGraph :=
  (List.range n.nets.size).foldl (fun g net => g.joinAll net (joined n net))
    (bare n.components.size n.nets.size)

/-- The nets that join a component to something, in order. -/
def netsOf (g : ConnectionGraph) (c : ComponentId) : List NetId := g.nets[c]?.getD []

/-- The components that a net joins, in order. -/
def membersOf (g : ConnectionGraph) (net : NetId) : List ComponentId := g.members[net]?.getD []

/-- The nets that join some member of a group to something, in order. -/
def netsOfGroup (g : ConnectionGraph) (group : List ComponentId) : List NetId :=
  unionOf (group.map g.netsOf)

/-- The components that share a net with one, in order. -/
def neighbours (g : ConnectionGraph) (c : ComponentId) : List ComponentId :=
  (unionOf ((g.netsOf c).map g.membersOf)).erase c

end ConnectionGraph

/-! ### Weights -/

/-- How many nets two groups share. -/
def sharedNets (a b : List NetId) : Nat := a.countP b.contains

/-- The counts of shared nets between every two groups, none within a group. -/
def weightMatrix {α : Type} [Scalar α] (groups : List (List NetId)) : List (List α) :=
  groups.mapIdx fun i a =>
    groups.mapIdx fun j b => Scalar.ofInt (if i = j then 0 else sharedNets a b)

end Schematic
