import Schematic.Proofs.Circuit.Renaming
import Schematic.Proofs.Layout.Arrangement

/-!
# Placing circuits without names

Nothing in placing asks for a name, except to say which clusters could not be
spread.  So a circuit without names has the same tree of clusters, the tree is
arranged in the same way, and everything is placed where it was before.  The
errors are the same but for the names in them.

## Main definitions

* `PlacementError.unlabelled`, `Arrangement.unlabelled` — errors without names.

## Main statements

* `ClusterTree.ofMembers_anonymous` — the tree does not depend on names.
* `ClusterTree.arrange_anonymous` — nor does its arrangement.
* `Netlist.place_anonymous` — names can be left out before or after placing.
-/

namespace Schematic

variable {α : Type}

/-- An error without the names of those it is about. -/
def PlacementError.unlabelled : PlacementError α → PlacementError α
  | .coincident _ _ => .coincident "" ""
  | .scaleTooLarge _ scale limit => .scaleTooLarge "" scale limit

/-- An arrangement whose errors name nothing. -/
def Arrangement.unlabelled (a : Arrangement α) : Arrangement α :=
  { a with errors := a.errors.map PlacementError.unlabelled }

/-- What an arrangement depends on, without names. -/
def LayoutContext.anonymous (ctx : LayoutContext α) : LayoutContext α :=
  { ctx with netlist := ctx.netlist.anonymous }

theorem Netlist.layoutContext_anonymous (n : Netlist α) (symbols : SymbolSource α)
    (config : PlacementConfig α) :
    n.anonymous.layoutContext symbols config = (n.layoutContext symbols config).anonymous := by
  simp only [layoutContext, LayoutContext.anonymous, connectionGraph_anonymous]

/-- Components without names have the symbols that they had. -/
theorem Netlist.symbolOf_anonymous (n : Netlist α) (id : ComponentId) :
    (n.anonymous.components[id]?.map (·.symbol)).getD "" =
      (n.components[id]?.map (·.symbol)).getD "" := by
  rw [components_anonymous, Array.getElem?_map, Option.map_map]
  rfl

variable [Scalar α]

/-! ### Clusters -/

namespace ClusterTree

variable (t : ClusterTree α) (ctx : LayoutContext α)

theorem partBounds_anonymous (id : ComponentId) :
    ctx.anonymous.partBounds id = ctx.partBounds id := by
  have hnets : ctx.anonymous.netlist.connectedNetCount id = ctx.netlist.connectedNetCount id :=
    ctx.netlist.connectedNetCount_anonymous id
  have hsymbol : (ctx.anonymous.netlist.components[id]?.map (·.symbol)).getD "" =
      (ctx.netlist.components[id]?.map (·.symbol)).getD "" := ctx.netlist.symbolOf_anonymous id
  simp only [LayoutContext.partBounds, hnets, hsymbol]
  rfl

/-- The tree of a circuit does not depend on names. -/
theorem ofMembers_anonymous (n : Netlist α) (members : List ComponentId) :
    ofMembers n.anonymous members = ofMembers n members := by
  have hcomposables : n.anonymous.composables.mapIdx composableNode =
      n.composables.mapIdx composableNode := by
    refine Array.ext_getElem? fun i => ?_
    rw [Netlist.composables_anonymous, Array.getElem?_mapIdx, Array.getElem?_mapIdx,
      Array.getElem?_map, Option.map_map]
    rfl
  have hmembers : members.filterMap (n.anonymous.components[·]?) =
      (members.filterMap (n.components[·]?)).map Component.unnamed := by
    simp only [Netlist.components_anonymous, Array.getElem?_map, List.map_filterMap]
  rw [ofMembers, ofMembers, hcomposables, hmembers, List.foldl_map,
    Netlist.composables_anonymous, Array.size_map]
  rfl

omit [Scalar α] in
theorem placementError_anonymous (cluster : NodeId) (failure : SeparationFailure α) :
    (t.placementError ctx.anonymous cluster failure).unlabelled =
      (t.placementError ctx cluster failure).unlabelled := by
  cases failure <;> rfl

/-- A cluster is arranged in the same way without names, if its members were. -/
theorem arrangeCluster_anonymous (id : NodeId) {members : List NodeId}
    {a b : NodeId → Arrangement α} (h : ∀ c ∈ members, (a c).unlabelled = (b c).unlabelled) :
    (t.arrangeCluster ctx.anonymous id (members.map fun c => (c, a c))).unlabelled =
      (t.arrangeCluster ctx id (members.map fun c => (c, b c))).unlabelled := by
  have hbounds : ∀ c ∈ members, (a c).bounds = (b c).bounds := fun c hc =>
    (congrArg Arrangement.bounds (h c hc) :)
  have hsiblings :
      (members.map fun c => (c, a c)).map (fun m => t.sibling ctx.graph m.1 m.2.bounds) =
        (members.map fun c => (c, b c)).map fun m => t.sibling ctx.graph m.1 m.2.bounds := by
    rw [List.map_map, List.map_map]
    exact List.map_congr_left fun c hc => congrArg (t.sibling ctx.graph c) (hbounds c hc)
  have hoffsets : (members.map fun c => (c, a c)).flatMap (·.2.offsets) =
      (members.map fun c => (c, b c)).flatMap (·.2.offsets) := by
    rw [List.flatMap_map, List.flatMap_map]
    exact List.flatMap_congr fun c hc => (congrArg Arrangement.offsets (h c hc) :)
  have hmoved : (members.map fun c => (c, a c)).flatMap (·.2.moved) =
      (members.map fun c => (c, b c)).flatMap (·.2.moved) := by
    rw [List.flatMap_map, List.flatMap_map]
    exact List.flatMap_congr fun c hc => (congrArg Arrangement.moved (h c hc) :)
  have herrors : ((members.map fun c => (c, a c)).flatMap (·.2.errors)).map
      PlacementError.unlabelled =
        ((members.map fun c => (c, b c)).flatMap (·.2.errors)).map PlacementError.unlabelled := by
    rw [List.flatMap_map, List.flatMap_map, List.map_flatMap, List.map_flatMap]
    exact List.flatMap_congr fun c hc => (congrArg Arrangement.errors (h c hc) :)
  have hfailure : ∀ failure : Option (SeparationFailure α),
      ((failure.map (t.placementError ctx.anonymous id)).toList.map PlacementError.unlabelled) =
        (failure.map (t.placementError ctx id)).toList.map PlacementError.unlabelled := by
    rintro (_ | failure)
    · rfl
    · exact congrArg ([·]) (t.placementError_anonymous ctx id failure)
  have hconfig : ctx.anonymous.config = ctx.config := rfl
  have hgraph : ctx.anonymous.graph = ctx.graph := rfl
  simp only [arrangeCluster, Arrangement.unlabelled, List.map_append, hconfig, hgraph, hsiblings,
    hoffsets, hmoved, herrors, hfailure]

/-- The arrangement of a tree does not depend on names. -/
theorem arrange_anonymous (p : NodeId) :
    (t.arrange ctx.anonymous p).unlabelled = (t.arrange ctx p).unlabelled := by
  induction p using postOrder.induct t with
  | case1 p ih =>
    cases hkind : t.kind p with
    | part i => rw [arrange_part hkind, arrange_part hkind, partBounds_anonymous]
    | _ =>
      have hpart : (t.kind p).part? = none := by rw [hkind]; rfl
      rw [arrange_cluster hpart, arrange_cluster hpart]
      exact t.arrangeCluster_anonymous ctx p fun c hc => ih ⟨c, hc⟩

end ClusterTree

/-! ### Positions -/

namespace Netlist

variable (n : Netlist α)

omit [Scalar α] in
theorem unmarked_anonymous : n.anonymous.components.toList.filter (fun c => !c.marker) =
    (n.components.toList.filter fun c => !c.marker).map Component.unnamed := by
  rw [components_anonymous, Array.toList_map, List.filter_map]
  rfl

omit [Scalar α] in
@[simp] theorem electrical_anonymous : n.anonymous.electrical = n.electrical := by
  rw [electrical, electrical, unmarked_anonymous, List.map_map, isElectrical_anonymous]
  rfl

omit [Scalar α] in
@[simp] theorem mechanical_anonymous : n.anonymous.mechanical = n.mechanical := by
  rw [mechanical, mechanical, unmarked_anonymous, List.map_map]
  simp only [isElectrical_anonymous]
  rfl

theorem outerFrame_anonymous (id : ComposableId) : n.anonymous.outerFrame id = n.outerFrame id := by
  rw [outerFrame, outerFrame, n.bind_composable_anonymous fun _ => rfl]
  simp only [composableFrame_anonymous]

theorem applyComposable_anonymous (t : ClusterTree α) (a : Arrangement α) (node : NodeId) :
    applyComposable t a n.anonymous node = (applyComposable t a n node).anonymous := by
  unfold applyComposable
  cases t.kind node with
  | composable id =>
    simp only [outerFrame_anonymous]
    split
    · rfl
    · exact (setComposablePosition_anonymous n id _).symm
  | _ => rfl

theorem applyPart_anonymous (pitch : α) (t : ClusterTree α) (a : Arrangement α) (node : NodeId) :
    applyPart pitch t a n.anonymous node = (applyPart pitch t a n node).anonymous := by
  unfold applyPart
  cases t.kind node with
  | part id =>
    simp only [parentFrame_anonymous]
    split
    · rfl
    · exact (setPosition_anonymous n id _).symm
  | _ => rfl

/-- Names can be left out before or after an arrangement is applied. -/
theorem applyArrangement_anonymous (pitch : α) (t : ClusterTree α) (a : Arrangement α) :
    n.anonymous.applyArrangement pitch t a = (n.applyArrangement pitch t a).anonymous := by
  rw [applyArrangement, applyArrangement, List.foldl_hom anonymous fun n node =>
    applyComposable_anonymous n t a node]
  exact List.foldl_hom anonymous fun n node => applyPart_anonymous n pitch t a node

theorem blockBox?_anonymous (symbols : SymbolSource α) (ids : List ComponentId) :
    n.anonymous.blockBox? symbols ids = n.blockBox? symbols ids := by
  simp only [blockBox?, absolute?_anonymous, symbolOf_anonymous]

/-- Names can be left out before or after the rows are placed. -/
theorem placeMechanical_anonymous (symbols : SymbolSource α) (config : PlacementConfig α)
    (electrical mechanical : List ComponentId) :
    n.anonymous.placeMechanical symbols config electrical mechanical =
      (n.placeMechanical symbols config electrical mechanical).anonymous := by
  have hfixed : ∀ id : ComponentId,
      n.anonymous.components[id]?.any (·.fixed) = n.components[id]?.any (·.fixed) := by
    intro id
    rw [components_anonymous, Array.getElem?_map, Option.any_map]
    rfl
  simp only [placeMechanical, hfixed, blockBox?_anonymous, symbolOf_anonymous]
  refine List.foldl_hom anonymous fun n p => ?_
  rw [parentFrame_anonymous, setPosition_anonymous]

/-- Names can be left out before or after placing. -/
theorem place_anonymous (symbols : SymbolSource α) (config : PlacementConfig α) :
    (n.anonymous.place symbols config).1 = (n.place symbols config).1.anonymous := by
  have hplace : ∀ m : Netlist α, (m.place symbols config).1 =
      (m.applyArrangement config.gridSnap (.ofMembers m m.electrical)
        ((ClusterTree.ofMembers m m.electrical).arrange (m.layoutContext symbols config)
          0)).placeMechanical symbols config m.electrical m.mechanical := fun _ => rfl
  -- positions do not depend on the errors of an arrangement
  have happly : ∀ (m : Netlist α) (t : ClusterTree α) (a : Arrangement α),
      m.applyArrangement config.gridSnap t a =
        m.applyArrangement config.gridSnap t a.unlabelled := fun _ _ _ => rfl
  rw [hplace, hplace, electrical_anonymous, mechanical_anonymous, ClusterTree.ofMembers_anonymous,
    layoutContext_anonymous, happly, ClusterTree.arrange_anonymous, ← happly,
    applyArrangement_anonymous, placeMechanical_anonymous]

/-- The errors of placing are the same but for the names in them. -/
theorem errors_place_anonymous (symbols : SymbolSource α) (config : PlacementConfig α) :
    (n.anonymous.place symbols config).2.errors.map PlacementError.unlabelled =
      (n.place symbols config).2.errors.map PlacementError.unlabelled := by
  have herrors : ∀ m : Netlist α, (m.place symbols config).2.errors.map PlacementError.unlabelled =
      ((ClusterTree.ofMembers m m.electrical).arrange (m.layoutContext symbols config)
        0).unlabelled.errors := fun _ => rfl
  rw [herrors, herrors, electrical_anonymous, ClusterTree.ofMembers_anonymous,
    layoutContext_anonymous, ClusterTree.arrange_anonymous]

end Netlist

end Schematic
