import Schematic.Circuit.NetlistDocument
import Schematic.Proofs.Circuit.Compaction
import Schematic.Proofs.SExpr.Wording

/-!
# What a netlist document lists

The document of a netlist lists the components and the nets of the circuit.  Of the
markers of unconnected pins there is no trace in it: they are no components, they are
no pins of a net, and a net that has no other pins is passed over without leaving a
gap in the numbers of the nets.

## Main definitions

* `Netlist.OnNet` — a pin of a component that is no marker is on a net.
* `Netlist.ShowsComponent`, `Netlist.ShowsPin`, `Netlist.ShowsNet` — what stands in a record.
* `Netlist.ListsNets`, `Netlist.DescribedBy` — what stands in a document.

## Main statements

* `Netlist.WellFormed.describedBy_document` — the document describes the netlist.
* `Netlist.worded_document` — nothing in it can be lost in its text.
* `Netlist.document_describes` — so it is for every netlist that is handed out.
-/

namespace Schematic

namespace Netlist

variable {α : Type}

/-! ### Records -/

/-- A pin of a component that is no marker is on a net. -/
def OnNet (n : Netlist α) (p : PinId) (net : NetId) : Prop :=
  ∃ x c, n.pins[p]? = some x ∧ x.net = some net ∧
    n.components[x.component]? = some c ∧ c.marker = false

/-- A symbol is parted into the name of its library, which has no colon, and its name there. -/
inductive Parted (symbol : String) : String → String → Prop where
  /-- It is parted at its first colon. -/
  | colon {lib part : String} (split : symbol = lib ++ ":" ++ part) (first : ':' ∉ lib.toList) :
      Parted symbol lib part
  /-- Without a colon it is in no library. -/
  | bare (none : ':' ∉ symbol.toList) : Parted symbol "" symbol

/-- A record shows a component. -/
structure ShowsComponent (c : Component α) (e : SExpr α) : Prop where
  /-- It is a record of a component. -/
  head : e.head? = some "comp"
  /-- It has the reference designator. -/
  reference : e.entry? "ref" = some c.reference
  /-- It has the value, or says that there is none. -/
  value : e.entry? "value" = some (c.value.getD "~")
  /-- It has the footprint if there is one. -/
  footprint : e.entry? "footprint" = c.footprint
  /-- It has the two parts of the symbol. -/
  symbol : ∃ source lib part, e.child? "libsource" = some source ∧
    source.entry? "lib" = some lib ∧ source.entry? "part" = some part ∧ Parted c.symbol lib part

/-- A record shows a pin by its component, which is no marker, and its key. -/
def ShowsPin (n : Netlist α) (p : PinId) (e : SExpr α) : Prop :=
  ∃ x c, n.pins[p]? = some x ∧ n.components[x.component]? = some c ∧ c.marker = false ∧
    e = .record "node" [.field "ref" c.reference, .field "pin" x.key]

/-- A record shows a net under a number. -/
structure ShowsNet (n : Netlist α) (code : Nat) (net : NetId) (e : SExpr α) : Prop where
  /-- It is a record of a net. -/
  head : e.head? = some "net"
  /-- It has the number. -/
  code : e.entry? "code" = some (digitText code)
  /-- It has the name. -/
  name : e.entry? "name" = some (n.netName net)
  /-- Its nodes are the functional pins, in the order in which they were tied. -/
  nodes : List.Forall₂ n.ShowsPin (n.functionalPins net) (e.children "node")

/-- Records list some nets with their pins. -/
structure ListsNets (n : Netlist α) (nets : List NetId) (records : List (SExpr α)) : Prop where
  /-- There is one record for each of the nets, and the numbers count up from one. -/
  shows : List.Forall₂ (fun e r => n.ShowsNet e.2 e.1 r) (nets.zipIdx 1) records
  /-- The nets are in the order of the netlist, each of them once. -/
  order : nets.Pairwise (· < ·)
  /-- They are those with a functional pin. -/
  net_iff : ∀ k, k ∈ nets ↔ ∃ p, n.OnNet p k
  /-- The functional pins of a net are those that are on it. -/
  pin_iff : ∀ k p, p ∈ n.functionalPins k ↔ n.OnNet p k
  /-- Two functional pins are in one record when they are on one net. -/
  same_record_iff : ∀ p q, (∃ k ∈ nets, p ∈ n.functionalPins k ∧ q ∈ n.functionalPins k) ↔
    ∃ k, n.OnNet p k ∧ n.OnNet q k
  /-- All the nodes together are the functional pins that are on nets, each of them once. -/
  nodes : ∃ pins, List.Forall₂ n.ShowsPin pins (records.flatMap (·.children "node")) ∧
    pins.Nodup ∧ ∀ p, p ∈ pins ↔ ∃ k, n.OnNet p k

/-- A document describes a netlist. -/
structure DescribedBy (n : Netlist α) (e : SExpr α) : Prop where
  /-- It has one list of components, which are those that are no markers, in order. -/
  components : ∃ records, e.children "components" = [.record "components" records] ∧
    List.Forall₂ ShowsComponent (n.components.toList.filter fun c => !c.marker) records
  /-- It has one list of nets. -/
  nets : ∃ nets records, e.children "nets" = [.record "nets" records] ∧ n.ListsNets nets records

/-! ### Components -/

theorem parted_splitSymbol (symbol : String) :
    Parted symbol (splitSymbol symbol).1 (splitSymbol symbol).2 := by
  have hlead : ':' ∉ symbol.toList.takeWhile (· ≠ ':') := fun h => by
    simpa using List.mem_takeWhile_imp h
  rw [splitSymbol]
  split
  · next c part hdrop =>
    have hc : c = ':' := by
      have hhead := List.head?_dropWhile_not (· ≠ ':') symbol.toList
      rw [hdrop] at hhead
      simpa using hhead
    refine .colon (String.ext ?_) (by rwa [String.toList_ofList])
    have hparts := List.takeWhile_append_dropWhile (p := (· ≠ ':')) (l := symbol.toList)
    rw [hdrop, hc] at hparts
    simp only [String.toList_append, String.toList_ofList, List.append_assoc]
    exact hparts.symm
  · next hdrop =>
    refine .bare fun h => ?_
    have := List.dropWhile_eq_nil_iff.1 hdrop _ h
    simp at this

theorem showsComponent_componentRecord (c : Component α) :
    ShowsComponent c (componentRecord c) := by
  have hsource : (componentRecord c).child? "libsource" = some (.record "libsource"
      [.field "lib" (splitSymbol c.symbol).1, .field "part" (splitSymbol c.symbol).2]) := by
    cases hfootprint : c.footprint <;> simp [componentRecord, hfootprint]
  constructor
  case head => rfl
  case reference => simp [componentRecord, SExpr.entry?]
  case value => simp [componentRecord, SExpr.entry?]
  case footprint =>
    cases hfootprint : c.footprint <;> simp [componentRecord, SExpr.entry?, hfootprint]
  case symbol =>
    exact ⟨_, _, _, hsource, by simp [SExpr.entry?], by simp [SExpr.entry?],
      parted_splitSymbol c.symbol⟩

/-! ### Nets -/

theorem WellFormed.mem_functionalPins_iff {n : Netlist α} (h : n.WellFormed) (k : NetId)
    (p : PinId) : p ∈ n.functionalPins k ↔ n.OnNet p k := by
  have hnet : p ∈ n.netPins k ↔ n.pins[p]?.bind (·.net) = some k := by
    refine Iff.trans ?_ (h.circuit.nets.netOf_iff p k).symm
    rw [netPins, n.asBuild_net?]
    cases n.nets[k]? <;> simp
  rw [functionalPins, List.mem_filter, hnet, Option.bind_eq_some_iff, isMarkerPin, owner?]
  constructor
  · rintro ⟨⟨x, hx, hk⟩, hmarker⟩
    have hc := Array.getElem?_eq_getElem (h.component_lt hx)
    exact ⟨x, _, hx, hk, hc, by simpa [hx, hc] using hmarker⟩
  · rintro ⟨x, c, hx, hk, hc, hmarker⟩
    exact ⟨⟨x, hx, hk⟩, by simp [hx, hc, hmarker]⟩

theorem WellFormed.functionalPins_nodup {n : Netlist α} (h : n.WellFormed) (k : NetId) :
    (n.functionalPins k).Nodup := by
  rw [functionalPins, netPins]
  refine List.Nodup.filter _ ?_
  cases hk : n.nets[k]? with
  | none => exact List.nodup_nil
  | some x => exact h.circuit.nets.nodup k x ((n.asBuild_net? k).trans hk)

theorem OnNet.net_eq {n : Netlist α} {p : PinId} {k m : NetId} (hk : n.OnNet p k)
    (hm : n.OnNet p m) : k = m := by
  obtain ⟨x, -, hx, hxk, -⟩ := hk
  obtain ⟨y, -, hy, hym, -⟩ := hm
  obtain rfl := Option.some.inj (hx.symm.trans hy)
  exact Option.some.inj (hxk.symm.trans hym)

theorem functionalPins_eq_nil {n : Netlist α} {k : NetId} (hk : n.nets.size ≤ k) :
    n.functionalPins k = [] := by
  rw [functionalPins, netPins, Array.getElem?_eq_none hk]
  rfl

theorem mem_functionalNets_iff {n : Netlist α} {k : NetId} :
    k ∈ n.functionalNets ↔ ∃ p, p ∈ n.functionalPins k := by
  rw [functionalNets, List.mem_filter, List.mem_range, Bool.not_eq_true',
    List.isEmpty_eq_false_iff]
  constructor
  · rintro ⟨-, hne⟩
    exact List.exists_mem_of_ne_nil _ hne
  · rintro ⟨p, hp⟩
    refine ⟨Nat.lt_of_not_le fun hk => ?_, List.ne_nil_of_mem hp⟩
    rw [functionalPins_eq_nil hk] at hp
    cases hp

theorem functionalNets_pairwise (n : Netlist α) : n.functionalNets.Pairwise (· < ·) :=
  List.pairwise_lt_range.filter _

theorem showsPin_nodeRecord {n : Netlist α} {p : PinId} {k : NetId} (h : n.OnNet p k) :
    n.ShowsPin p (n.nodeRecord p) := by
  obtain ⟨x, c, hx, -, hc, hmarker⟩ := h
  exact ⟨x, c, hx, hc, hmarker, by simp [nodeRecord, referenceOf, hx, hc]⟩

theorem head?_nodeRecord (n : Netlist α) (p : PinId) : (n.nodeRecord p).head? = some "node" := by
  rw [nodeRecord]
  split <;> rfl

theorem children_netRecord (n : Netlist α) (code : Nat) (net : NetId) :
    (n.netRecord code net).children "node" = (n.functionalPins net).map n.nodeRecord := by
  have hnodes : ∀ x ∈ (n.functionalPins net).map n.nodeRecord,
      (x.head? == some "node") = true := by
    intro x hx
    obtain ⟨p, -, rfl⟩ := List.mem_map.1 hx
    simp [head?_nodeRecord]
  exact List.filter_eq_self.2 hnodes

section WellFormed

variable {n : Netlist α} (h : n.WellFormed)
include h

theorem WellFormed.showsNet_netRecord (code : Nat) (net : NetId) :
    n.ShowsNet code net (n.netRecord code net) where
  head := rfl
  code := by simp [netRecord, SExpr.entry?]
  name := by simp [netRecord, SExpr.entry?]
  nodes := by
    rw [children_netRecord, List.forall₂_map_right_iff, List.forall₂_same]
    exact fun p hp => showsPin_nodeRecord ((h.mem_functionalPins_iff net p).1 hp)

/-- The functional pins of the nets that have any. -/
theorem WellFormed.mem_flatMap_functionalPins (p : PinId) :
    p ∈ n.functionalNets.flatMap n.functionalPins ↔ ∃ k, n.OnNet p k := by
  simp only [List.mem_flatMap, mem_functionalNets_iff, h.mem_functionalPins_iff]
  exact ⟨fun ⟨k, _, hp⟩ => ⟨k, hp⟩, fun ⟨k, hp⟩ => ⟨k, ⟨p, hp⟩, hp⟩⟩

/-- No pin is on two nets. -/
theorem WellFormed.nodup_flatMap_functionalPins :
    (n.functionalNets.flatMap n.functionalPins).Nodup := by
  refine List.nodup_flatMap.2 ⟨fun k _ => h.functionalPins_nodup k, ?_⟩
  refine n.functionalNets_pairwise.imp fun {k m} hlt p hk hm => ?_
  rw [h.mem_functionalPins_iff] at hk hm
  exact absurd (hk.net_eq hm) (Nat.ne_of_lt hlt)

theorem WellFormed.listsNets : n.ListsNets n.functionalNets
    (n.functionalNets.mapIdx fun i net => n.netRecord (i + 1) net) := by
  have hshows : List.Forall₂ (fun e r => n.ShowsNet e.2 e.1 r) (n.functionalNets.zipIdx 1)
      (n.functionalNets.mapIdx fun i net => n.netRecord (i + 1) net) := by
    rw [List.zipIdx_succ, List.mapIdx_eq_zipIdx_map, List.forall₂_map_left_iff,
      List.forall₂_map_right_iff, List.forall₂_same]
    exact fun e _ => h.showsNet_netRecord _ _
  constructor
  case shows => exact hshows
  case order => exact n.functionalNets_pairwise
  case net_iff => exact fun k => by simp only [mem_functionalNets_iff, h.mem_functionalPins_iff]
  case pin_iff => exact h.mem_functionalPins_iff
  case same_record_iff =>
    intro p q
    simp only [mem_functionalNets_iff, h.mem_functionalPins_iff]
    exact ⟨fun ⟨k, _, hpq⟩ => ⟨k, hpq⟩, fun ⟨k, hp, hq⟩ => ⟨k, ⟨p, hp⟩, hp, hq⟩⟩
  case nodes =>
    refine ⟨_, ?_, h.nodup_flatMap_functionalPins, h.mem_flatMap_functionalPins⟩
    have hnodes := List.rel_flatMap hshows (fun _ _ hnet => hnet.nodes)
    have hfirst : (n.functionalNets.zipIdx 1).flatMap (fun e => n.functionalPins e.1) =
        n.functionalNets.flatMap n.functionalPins := by
      rw [← List.flatMap_map, List.zipIdx_map_fst]
    exact hfirst ▸ hnodes

theorem WellFormed.describedBy_document : n.DescribedBy n.document := by
  have hcomponents : n.document.children "components" = [.record "components"
      ((n.components.toList.filter fun c => !c.marker).map componentRecord)] := by
    simp [document]
  have hnets : n.document.children "nets" = [.record "nets"
      (n.functionalNets.mapIdx fun i net => n.netRecord (i + 1) net)] := by
    simp [document]
  refine ⟨⟨_, hcomponents, ?_⟩, _, _, hnets, h.listsNets⟩
  rw [List.forall₂_map_right_iff, List.forall₂_same]
  exact fun c _ => showsComponent_componentRecord c

end WellFormed

/-! ### Text -/

theorem worded_componentRecord (c : Component α) : (componentRecord c).Worded := by
  refine .record (by decide) fun x hx => ?_
  simp only [List.mem_append, List.mem_cons, List.not_mem_nil, or_false] at hx
  rcases hx with ((rfl | rfl) | hx) | rfl
  · exact .field (by decide) _
  · exact .field (by decide) _
  · cases hfootprint : c.footprint with
    | none => simp [hfootprint] at hx
    | some f =>
      rw [hfootprint] at hx
      obtain rfl := List.mem_singleton.1 hx
      exact .field (by decide) _
  · refine .record (by decide) ?_
    simp only [List.forall_mem_cons]
    exact ⟨.field (by decide) _, .field (by decide) _, nofun⟩

theorem worded_nodeRecord (n : Netlist α) (p : PinId) : (n.nodeRecord p).Worded := by
  rw [nodeRecord]
  split
  · refine .record (by decide) ?_
    simp only [List.forall_mem_cons]
    exact ⟨.field (by decide) _, .field (by decide) _, nofun⟩
  · exact .record (by decide) nofun

theorem worded_netRecord (n : Netlist α) (code : Nat) (net : NetId) :
    (n.netRecord code net).Worded := by
  refine .record (by decide) fun x hx => ?_
  rcases List.mem_append.1 hx with hx | hx
  · simp only [List.mem_cons, List.not_mem_nil, or_false] at hx
    rcases hx with rfl | rfl <;> exact .field (by decide) _
  · obtain ⟨p, -, rfl⟩ := List.mem_map.1 hx
    exact worded_nodeRecord n p

/-- The document has no numbers, and its symbols are all its own. -/
theorem worded_document (n : Netlist α) : n.document.Worded := by
  refine .record (by decide) ?_
  simp only [List.forall_mem_cons]
  refine ⟨.field (by decide) _, .record (by decide) ?_, .record (by decide) fun x hx => ?_,
    .record (by decide) fun x hx => ?_, nofun⟩
  · simp only [List.forall_mem_cons]
    exact ⟨.field (by decide) _, .field (by decide) _, nofun⟩
  · obtain ⟨c, -, rfl⟩ := List.mem_map.1 hx
    exact worded_componentRecord c
  · obtain ⟨i, -, rfl⟩ := List.mem_mapIdx.1 hx
    exact worded_netRecord n _ _

/-- A netlist is handed out after every run.  Its document lists the components that are no
markers and the nets with functional pins, and is read back from its text as it is. -/
theorem document_describes [Scalar α] [SExpr.PlainNumbers α] (name : String)
    (ops : List (Operation α)) :
    ∃ n b, Build.drain ((Build.new name).run ops) = .ok n b ∧ n.DescribedBy n.document ∧
      SExpr.parse n.documentText = .ok n.document := by
  have hwf := Build.toNetlist_wellFormed (Build.wellFormed_run name ops)
  exact ⟨_, _, rfl, hwf.describedBy_document, (worded_document _).parse_documentText⟩

/-- A part with quotes, parentheses, a backslash and a line break in what is said of it.  The
first net stays without pins, and the second pin gets a marker. -/
def awkwardPart : List (Operation ℚ) :=
  [.addComponent { symbol := "My:Lib:R", reference := "R(1)", value := some "10 \"k\"\\",
                   footprint := some "a\nb" },
   .addNet none, .addNet (some "out )("), .connect 0 "1\"" (.net 1), .pin 0 "2",
   .markNoConnect 1 none]

/-- The part alone is listed, its nets are numbered from one, and it is read back. -/
theorem awkwardPart_document :
    ∃ n b, Build.drain ((Build.new "x").run awkwardPart) = .ok n b ∧
      n.DescribedBy n.document ∧ SExpr.parse n.documentText = .ok n.document ∧
      n.documentText =
        "(export\n  (version \"E\")\n  (design\n    (source \"x.kicad_sch\")\n" ++
        "    (tool \"netweave\")\n  )\n  (components\n" ++
        "    (comp (ref \"R(1)\") (value \"10 \\\"k\\\"\\\\\") (footprint \"a\\nb\")" ++
        " (libsource (lib \"My\") (part \"Lib:R\")))\n  )\n  (nets\n    (net\n" ++
        "      (code \"1\")\n      (name \"out )(\")\n" ++
        "      (node (ref \"R(1)\") (pin \"1\\\"\"))\n    )\n    (net\n" ++
        "      (code \"2\")\n      (name \"unconnected-(R(1)-Pad2)\")\n" ++
        "      (node (ref \"R(1)\") (pin \"2\"))\n    )\n  )\n)\n" := by
  obtain ⟨n, b, hdrain, hdescribed, hparse⟩ := document_describes "x" awkwardPart
  refine ⟨n, b, hdrain, hdescribed, hparse, ?_⟩
  cases hdrain
  -- compared character by character, piece by piece
  refine String.ext ?_
  rw [documentText, SExpr.documentText, String.toList_ofList]
  simp only [String.toList_append]
  decide +kernel

end Netlist

end Schematic
