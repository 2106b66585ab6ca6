import Schematic.Proofs.Geometry.Turns
import Schematic.Proofs.Layout.Arrangement

/-!
# What is arranged stays arranged

An arrangement in a grid looks at the boxes of the members, at what joins them, and at
the places of those that the author has placed.  When its outcome is arranged once
more, these are the same, but that the author's places are spread already, so that
nothing is left to spread.  The free members come to lie where they were, whatever
offsets they have by then.  From cluster to cluster the whole tree is arranged as
before.

## Main definitions

* `Sibling.Agrees` — the same member up to whole turns, in the same place if the
  author chose that.
* `ClusterTree.Settles` — a tree in which the author's places are those of an
  arrangement.

## Main statements

* `arrangeInGrid_agrees` — what a grid depends on.
* `arrangeSiblings_settled` — the members of a cluster are arranged as before.
* `ClusterTree.Settles.arrange_eq` — so is a whole tree.
* `ClusterTree.Settles.frameAfter_eq` — its nodes have the frames they had.
-/

namespace Schematic

open ExactScalar
open scoped Scalar

variable {α : Type} [Scalar α] [ExactScalar α]

namespace Sibling

variable {s s' s'' : Sibling α}

/-- The same member up to whole turns, in the same place if the author chose that. -/
structure Agrees (s s' : Sibling α) : Prop where
  /-- It is the same node. -/
  node : s'.node = s.node
  /-- It has the same box. -/
  bounds : s'.bounds = s.bounds
  /-- The author has placed both or none. -/
  fixed : s'.fixed = s.fixed
  /-- The same nets join it. -/
  nets : s'.nets = s.nets
  /-- It is turned by quarter turns. -/
  square : IsQuarter s.rotation
  /-- Both are turned alike. -/
  rotation : SameTurn s'.rotation s.rotation
  /-- The author's place is the same. -/
  offset : s.fixed = true → s'.offset = s.offset

theorem Agrees.trans (h : s.Agrees s') (h' : s'.Agrees s'') : s.Agrees s'' where
  node := h'.node.trans h.node
  bounds := h'.bounds.trans h.bounds
  fixed := h'.fixed.trans h.fixed
  nets := h'.nets.trans h.nets
  square := h.square
  rotation := h'.rotation.trans h.rotation
  offset hfixed := (h'.offset (h.fixed.trans hfixed)).trans (h.offset hfixed)

/-- A member that is moved agrees with itself before, unless the author has placed it. -/
theorem Agrees.of_shifted (hsquare : IsQuarter s.rotation) (h : s.Shifted s')
    (hkept : s.fixed = true → s' = s) : s.Agrees s' := by
  rw [Shifted] at h
  refine ⟨?_, ?_, ?_, ?_, hsquare, ?_, fun hfixed => by rw [hkept hfixed]⟩
  all_goals rw [h]
  all_goals first | rfl | exact .refl _

theorem Agrees.box_eq (h : s.Agrees s') : s'.box = s.box := by
  rw [box, box, h.bounds]
  exact placeBox_congr h.square h.rotation _ _ _

theorem Agrees.footprint_eq (h : s.Agrees s') (hplace : s'.offset = s.offset) :
    s'.footprint = s.footprint := by
  rw [footprint, footprint, h.bounds, hplace]
  exact placeBox_congr h.square h.rotation _ _ _

end Sibling

open Sibling

variable {xs ys : List (Sibling α)}

/-! ### Members that agree -/

section Agreement

variable (h : List.Forall₂ Agrees xs ys)
include h

/-- So do those of one kind. -/
theorem agrees_filter (kind : Bool → Bool) :
    List.Forall₂ Agrees (xs.filter fun s => kind s.fixed) (ys.filter fun s => kind s.fixed) := by
  refine List.rel_filter (fun s s' hs => ?_) h
  show kind s.fixed = true ↔ kind s'.fixed = true
  rw [hs.fixed]

theorem boxes_eq_of_agrees : ys.map (·.box) = xs.map (·.box) :=
  (map_eq_of_forall₂ (fun _ _ hs => hs.box_eq.symm) h).symm

theorem nets_eq_of_agrees : ys.map (·.nets) = xs.map (·.nets) :=
  (map_eq_of_forall₂ (fun _ _ hs => hs.nets.symm) h).symm

/-- The members of the author have the same boxes around their origins. -/
theorem shapes_eq_of_agrees : ((ys.filter (·.fixed)).map fun s => (s.node, s.box)) =
    (xs.filter (·.fixed)).map fun s => (s.node, s.box) := by
  refine (map_eq_of_forall₂ (fun s s' hs => ?_) (agrees_filter h id)).symm
  rw [hs.node, hs.box_eq]

/-- What the members of the author have in common with their places is the same. -/
theorem authored_eq_of_agrees {β : Type} {f : Sibling α → β}
    (hf : ∀ s s' : Sibling α, s.Agrees s' → s'.offset = s.offset → f s' = f s) :
    (ys.filter (·.fixed)).map f = (xs.filter (·.fixed)).map f := by
  have hauthored := (List.forall₂_and_left _ _).2 ⟨fun s (hs : s ∈ xs.filter (·.fixed)) =>
    (List.mem_filter.1 hs).2, agrees_filter h id⟩
  exact (map_eq_of_forall₂ (fun s s' hs => (hf s s' hs.2 (hs.2.offset hs.1)).symm) hauthored).symm

theorem gridAnchor_eq_of_agrees (spacing : α) : gridAnchor spacing ys = gridAnchor spacing xs := by
  rw [gridAnchor, gridAnchor,
    authored_eq_of_agrees h fun _ _ hs hplace => hs.footprint_eq hplace]

/-- Members of one kind that are given the same offsets come to lie in the same places, when
the others are there already. -/
theorem assign_agrees {points : List (Point α)}
    (hlength : points.length = (xs.filter fun s => !s.fixed).length) :
    List.Forall₂ (fun s s' => s.Agrees s' ∧ s'.offset = s.offset) (assign false xs points)
      (assign false ys points) := by
  have hcons : ∀ (s : Sibling α) zs ps, s.fixed = true →
      assign false (s :: zs) ps = s :: assign false zs ps := by
    intro s zs ps hs
    cases ps with
    | nil => cases zs <;> simp only [assign]
    | cons p ps => rw [assign, if_neg (by rw [hs]; decide)]
  induction h generalizing points with
  | nil => exact .nil
  | @cons s s' xs ys hs _ ih =>
    cases hfixed : s.fixed with
    | true =>
      rw [List.filter_cons_of_neg (by simp [hfixed])] at hlength
      rw [hcons s xs points hfixed, hcons s' ys points (hs.fixed.trans hfixed)]
      exact .cons ⟨hs, hs.offset hfixed⟩ (ih hlength)
    | false =>
      rw [List.filter_cons_of_pos (by simp [hfixed]), List.length_cons] at hlength
      obtain ⟨p, points, rfl⟩ := List.exists_cons_of_length_eq_add_one hlength
      rw [assign, if_pos hfixed, assign, if_pos (hs.fixed.trans hfixed)]
      refine .cons ⟨?_, rfl⟩ (ih (Nat.succ_injective hlength))
      exact { hs with offset := fun _ => rfl }

/-- A grid depends on what members that agree have in common. -/
theorem arrangeInGrid_agrees (spacing : α) :
    List.Forall₂ (fun s s' => s.Agrees s' ∧ s'.offset = s.offset) (arrangeInGrid spacing xs)
      (arrangeInGrid spacing ys) := by
  have hfree := agrees_filter h not
  rw [arrangeInGrid, arrangeInGrid, gridAnchor_eq_of_agrees h, nets_eq_of_agrees hfree,
    boxes_eq_of_agrees hfree]
  refine assign_agrees h ?_
  rw [List.length_map, length_gridLayout, List.length_map]

end Agreement

/-! ### The members of a cluster -/

section Cluster

omit [ExactScalar α] in
theorem filter_fixed_spreadBy (scale : α) (xs : List (Sibling α)) :
    (xs.map (·.spreadBy scale)).filter (·.fixed) =
      (xs.filter (·.fixed)).map (·.spreadBy scale) := by
  simp only [List.filter_map, Function.comp_def, fixed_spreadBy]

omit [ExactScalar α] in
/-- Members that are spread have their boxes around scaled origins. -/
theorem authored_spreadBy (scale : α) (xs : List (Sibling α)) :
    ((xs.map (·.spreadBy scale)).filter (·.fixed)).map (fun s => (s.node, s.box)) =
        (xs.filter (·.fixed)).map (fun s => (s.node, s.box)) ∧
      ((xs.map (·.spreadBy scale)).filter (·.fixed)).map (·.offset) =
        ((xs.filter (·.fixed)).map (·.offset)).map (·.scale scale) := by
  have hspread : ∀ s ∈ xs.filter (·.fixed), s.spreadBy scale = s.atOffset (s.offset.scale scale) :=
    fun s hs => spreadBy_of_fixed scale (List.mem_filter.1 hs).2
  rw [filter_fixed_spreadBy, List.map_map, List.map_map, List.map_map]
  constructor
  all_goals
    refine List.map_congr_left fun s hs => ?_
    simp only [Function.comp_apply, hspread s hs]
    rfl

/-- Members that have been spread are not spread any more, and those that could not be spread
still cannot. -/
theorem spreadFixed_settled (hunbounded : (1 : α) < unbounded) (maxScale : α)
    (h : List.Forall₂ Agrees (xs.map (·.spreadBy (spreadFactor maxScale xs))) ys) :
    spreadFixed maxScale ys = (spreadFixed maxScale xs).map fun _ => (1, ys) := by
  have hshapes := shapes_eq_of_agrees h
  have hplaces := authored_eq_of_agrees (f := Sibling.offset) h fun _ _ _ hplace => hplace
  have hlength : (ys.filter (·.fixed)).length = (xs.filter (·.fixed)).length := by
    have hcount := congrArg List.length hplaces
    rwa [List.length_map, List.length_map, filter_fixed_spreadBy, List.length_map] at hcount
  rw [(authored_spreadBy _ xs).1] at hshapes
  rw [(authored_spreadBy _ xs).2] at hplaces
  unfold spreadFactor at hplaces
  cases hspread : spreadFixed maxScale xs with
  | ok r =>
    obtain ⟨-, ⟨hfew, -⟩ | ⟨hmany, origins, hseparate⟩⟩ := spreadFixed_ok hspread
    · rw [← hlength] at hfew
      exact if_pos hfew
    · -- the boxes are apart at the scaled origins
      rw [hspread, ← (separateNumbered_ok hseparate).1] at hplaces
      have hapart := separateNumbered_apart hunbounded hseparate
      unfold spreadFixed
      rw [if_neg (by rw [hlength]; exact Nat.not_lt.2 hmany), hshapes, hplaces]
      dsimp only
      rw [separateNumbered_of_apart hapart]
      exact congrArg Except.ok (Prod.ext rfl (if_neg not_one_lt_one))
  | error failure =>
    rw [hspread, map_scale_one] at hplaces
    obtain ⟨hmany, hseparate⟩ := spreadFixed_eq_error_iff.1 hspread
    rw [← hlength] at hmany
    rw [← hshapes, ← hplaces] at hseparate
    exact spreadFixed_eq_error_iff.2 ⟨hmany, hseparate⟩

omit [ExactScalar α] in
theorem arrangeSiblings_singleton (config : PlacementConfig α) (s : Sibling α) :
    arrangeSiblings config [s] =
      ⟨[if s.fixed then s else s.atOffset .origin], false, none⟩ := rfl

/-- What has been spread agrees with the grid that it is put in. -/
theorem agrees_arrangeInGrid_spreadBy (hsquare : ∀ s ∈ xs, IsQuarter s.rotation)
    (spacing scale : α) :
    List.Forall₂ Agrees (xs.map (·.spreadBy scale))
      (arrangeInGrid spacing (xs.map (·.spreadBy scale))) := by
  have hturned : ∀ b ∈ xs.map (·.spreadBy scale), IsQuarter b.rotation := by
    intro b hb
    obtain ⟨s, hs, rfl⟩ := List.mem_map.1 hb
    show IsQuarter (s.spreadBy scale).rotation
    rw [rotation_spreadBy]
    exact hsquare s hs
  have hshifted := arrangeInGrid_shifted spacing (xs.map (·.spreadBy scale))
  refine ((List.forall₂_and_left _ _).2 ⟨hturned, hshifted⟩).imp ?_
  intro b b' hb
  exact .of_shifted hb.1 hb.2.1 hb.2.2

/-- Members that agree with those that several others have been spread to are put in the same
places, and nothing is spread. -/
theorem arrangeSiblings_settled_of_several {config : PlacementConfig α}
    (hgrid : config.strategy = .grid) (hunbounded : (1 : α) < unbounded) {s t s' t' : Sibling α}
    (h : List.Forall₂ Agrees
      ((s :: t :: xs).map (·.spreadBy (spreadFactor config.maxFixedScale (s :: t :: xs))))
      (s' :: t' :: ys)) :
    (arrangeSiblings config (s' :: t' :: ys)).spread = false ∧
      (arrangeSiblings config (s' :: t' :: ys)).failure =
        (arrangeSiblings config (s :: t :: xs)).failure ∧
      List.Forall₂ (fun s s' => s.Agrees s' ∧ s'.offset = s.offset)
        (arrangeSiblings config (s :: t :: xs)).siblings
        (arrangeSiblings config (s' :: t' :: ys)).siblings := by
  have hfree : ∀ zs : List (Sibling α), arrangeFree config zs = arrangeInGrid config.spacing zs := by
    intro zs
    rw [arrangeFree, hgrid]
  have hone : decide ((1 : α) < 1) = false := decide_eq_false not_one_lt_one
  have hsame := arrangeInGrid_agrees h config.spacing
  rw [← hfree, ← arrangeSiblings_siblings] at hsame
  rw [arrangeSiblings_cons_cons config s' t' ys,
    spreadFixed_settled hunbounded config.maxFixedScale h]
  -- the second arrangement fails where the first one did
  cases hspread : spreadFixed config.maxFixedScale (s :: t :: xs) with
  | ok r =>
    have hfailure : (arrangeSiblings config (s :: t :: xs)).failure = none := by
      rw [arrangeSiblings_cons_cons, hspread]
    simp only [Except.map, hone, hfree, hfailure]
    exact ⟨trivial, trivial, hsame⟩
  | error failure =>
    have hfailure : (arrangeSiblings config (s :: t :: xs)).failure = some failure := by
      rw [arrangeSiblings_cons_cons, hspread]
    simp only [Except.map, hfree, hfailure]
    exact ⟨trivial, trivial, hsame⟩

/-- When the members of a cluster are arranged, to arrange members that agree with them puts
these in the same places, spreads nothing, and fails as before. -/
theorem arrangeSiblings_settled {config : PlacementConfig α} (hgrid : config.strategy = .grid)
    (hunbounded : (1 : α) < unbounded) (hsquare : ∀ s ∈ xs, IsQuarter s.rotation)
    (h : List.Forall₂ Agrees (arrangeSiblings config xs).siblings ys) :
    (arrangeSiblings config ys).spread = false ∧
      (arrangeSiblings config ys).failure = (arrangeSiblings config xs).failure ∧
      List.Forall₂ (fun s s' => s.Agrees s' ∧ s'.offset = s.offset)
        (arrangeSiblings config xs).siblings (arrangeSiblings config ys).siblings := by
  rcases xs with _ | ⟨s, _ | ⟨t, xs⟩⟩
  · cases h
    exact ⟨rfl, rfl, .nil⟩
  · rw [arrangeSiblings_singleton] at h ⊢
    obtain ⟨s', zs, hs, hzs, rfl⟩ := List.forall₂_cons_left_iff.1 h
    cases hzs
    rw [arrangeSiblings_singleton]
    refine ⟨rfl, rfl, .cons ?_ .nil⟩
    cases hfixed : s.fixed with
    | true =>
      rw [hfixed, if_pos rfl] at hs
      rw [hs.fixed, hfixed]
      exact ⟨hs, hs.offset hfixed⟩
    | false =>
      rw [hfixed, if_neg Bool.false_ne_true] at hs
      rw [hs.fixed.trans hfixed]
      exact ⟨{ hs with offset := fun _ => rfl }, rfl⟩
  · rw [arrangeSiblings_siblings, arrangeFree, hgrid] at h
    have hagrees := forall₂_trans (R := Agrees) (S := Agrees) (fun _ _ _ => Agrees.trans)
      (agrees_arrangeInGrid_spreadBy hsquare config.spacing _) h
    obtain ⟨s', zs, hs, hzs, rfl⟩ := List.forall₂_cons_left_iff.1 hagrees
    obtain ⟨t', ys, ht, hys, rfl⟩ := List.forall₂_cons_left_iff.1 hzs
    exact arrangeSiblings_settled_of_several hgrid hunbounded (.cons hs (.cons ht hys))

end Cluster

/-! ### The whole tree -/

namespace ClusterTree

variable {t t' : ClusterTree α} {ctx ctx' : LayoutContext α}

/-- A tree like another one, in which the author's places are those of its arrangement, and
everything is turned as it is there. -/
structure Settles (t : ClusterTree α) (ctx : LayoutContext α) (t' : ClusterTree α)
    (ctx' : LayoutContext α) : Prop where
  /-- The settings are the same. -/
  config : ctx'.config = ctx.config
  /-- So is what the nets join. -/
  graph : ctx'.graph = ctx.graph
  /-- Components have the same boxes. -/
  partBounds : ∀ i, ctx'.partBounds i = ctx.partBounds i
  /-- There are as many nodes. -/
  size : t'.size = t.size
  /-- They stand for the same. -/
  kind : ∀ u, t'.kind u = t.kind u
  /-- They are in the same clusters. -/
  parent? : ∀ u, t'.parent? u = t.parent? u
  /-- They have the same names. -/
  label : ∀ u, t'.label ctx'.netlist u = t.label ctx.netlist u
  /-- The author has placed the same nodes. -/
  fixed : ∀ u, t'.isFixed u = t.isFixed u
  /-- Everything is turned by quarter turns. -/
  square : ∀ u, IsQuarter (t.rotation u)
  /-- Everything is turned as before. -/
  rotation : ∀ u, SameTurn (t'.rotation u) (t.rotation u)
  /-- What the author has placed has been spread by its cluster. -/
  offset : ∀ u p, t.parent? u = some p → t.isFixed u = true →
    t'.offset u = (t.offset u).scale (t.spreadFactorOf ctx p)

namespace Settles

variable (h : Settles t ctx t' ctx')
include h

theorem children_eq (p : NodeId) : t'.children p = t.children p := by
  simp only [children, h.size, h.parent?]

theorem leaves_eq (p : NodeId) : t'.leaves p = t.leaves p := by
  have horder : t'.postOrder p = t.postOrder p := by
    induction p using postOrder.induct t with
    | case1 p ih =>
      rw [postOrder_eq, postOrder_eq, h.children_eq]
      exact congrArg (· ++ [p]) (List.flatMap_congr fun c hc => ih ⟨c, hc⟩)
  simp only [leaves, horder, h.kind]

/-- A cluster is arranged as before, if its members have the boxes that they had. -/
theorem layoutOf_settled (hgrid : ctx.config.strategy = .grid) (hunbounded : (1 : α) < unbounded)
    {p : NodeId}
    (hbounds : ∀ c ∈ t.children p, (t'.arrange ctx' c).bounds = (t.arrange ctx c).bounds) :
    (t'.layoutOf ctx' p).spread = false ∧
      (t'.layoutOf ctx' p).failure = (t.layoutOf ctx p).failure ∧
      List.Forall₂ (fun s s' => s.Agrees s' ∧ s'.offset = s.offset) (t.layoutOf ctx p).siblings
        (t'.layoutOf ctx' p).siblings := by
  have hshifted := arrangeSiblings_shifted ctx.config
    ((t.children p).map fun c => t.sibling ctx.graph c (t.arrange ctx c).bounds)
  -- the members of the second tree stand beside those that the first one has arranged
  have hagrees : List.Forall₂ Sibling.Agrees (t.layoutOf ctx p).siblings
      ((t'.children p).map fun c => t'.sibling ctx'.graph c (t'.arrange ctx' c).bounds) := by
    rw [h.children_eq, List.forall₂_map_right_iff]
    refine ((List.forall₂_and_left _ _).2 ⟨fun c hc => hc,
      List.forall₂_map_left_iff.1 hshifted⟩).flip.imp fun s c hs => ?_
    obtain ⟨hc, hs, hkept⟩ := hs
    have hparent : t.parent? c = some p := (mem_children_iff.1 hc).2.2
    have hsame : s = (t.sibling ctx.graph c (t.arrange ctx c).bounds).atOffset s.offset := hs
    have hrotation : s.rotation = t.rotation c := congrArg Sibling.rotation hsame
    have hfixed : s.fixed = t.isFixed c := congrArg Sibling.fixed hsame
    constructor
    case node => exact (congrArg Sibling.node hsame).symm
    case bounds => exact (hbounds c hc).trans (congrArg Sibling.bounds hsame).symm
    case fixed => exact (h.fixed c).trans hfixed.symm
    case nets =>
      rw [congrArg Sibling.nets hsame]
      show ctx'.graph.netsOfGroup (t'.leaves c) = ctx.graph.netsOfGroup (t.leaves c)
      rw [h.graph, h.leaves_eq]
    case square => exact hrotation ▸ h.square c
    case rotation => exact hrotation ▸ h.rotation c
    case offset =>
      intro hs
      have hcfixed : (t.sibling ctx.graph c (t.arrange ctx c).bounds).fixed = true :=
        hfixed.symm.trans hs
      rw [hkept hcfixed, Sibling.spreadBy_of_fixed _ hcfixed]
      exact h.offset c p hparent hcfixed
  rw [layoutOf, h.config]
  refine arrangeSiblings_settled hgrid hunbounded ?_ hagrees
  rw [List.forall_mem_map]
  exact fun c _ => h.square c

/-- To arrange the tree once more changes nothing but that nothing is moved against the
author. -/
theorem arrange_eq (hgrid : ctx.config.strategy = .grid) (hunbounded : (1 : α) < unbounded)
    (p : NodeId) : t'.arrange ctx' p = { t.arrange ctx p with moved := [] } := by
  induction p using postOrder.induct t with
  | case1 p ih =>
    cases hpart : (t.kind p).part? with
    | some i =>
      have hkind : t.kind p = .part i := by
        cases hkind : t.kind p <;> rw [hkind] at hpart <;> cases hpart
        rfl
      rw [arrange_part hkind, arrange_part ((h.kind p).trans hkind), h.partBounds]
    | none =>
      have hmember : ∀ c ∈ t.children p,
          t'.arrange ctx' c = { t.arrange ctx c with moved := [] } := fun c hc => ih ⟨c, hc⟩
      obtain ⟨hspread, hfailure, hsame⟩ := h.layoutOf_settled hgrid hunbounded (p := p)
        fun c hc => by rw [hmember c hc]
      have hpart' : (t'.kind p).part? = none := by rw [h.kind, hpart]
      have hfootprints := map_eq_of_forall₂ (f := Sibling.footprint) (g := Sibling.footprint)
        (fun _ _ hs => (hs.1.footprint_eq hs.2).symm) hsame
      have hoffsets := map_eq_of_forall₂ (f := fun s : Sibling α => (s.node, s.offset))
        (g := fun s : Sibling α => (s.node, s.offset))
        (fun _ _ hs => by rw [hs.1.node, hs.2]) hsame
      have herror : t'.placementError ctx' p = t.placementError ctx p := by
        funext failure
        cases failure <;> simp only [placementError, h.label, h.config]
      have hcollected : (t.children p).flatMap (fun c => (t'.arrange ctx' c).offsets) =
          (t.children p).flatMap (fun c => (t.arrange ctx c).offsets) :=
        List.flatMap_congr fun c hc => by rw [hmember c hc]
      have herrors : (t.children p).flatMap (fun c => (t'.arrange ctx' c).errors) =
          (t.children p).flatMap (fun c => (t.arrange ctx c).errors) :=
        List.flatMap_congr fun c hc => by rw [hmember c hc]
      have hmoved : (t.children p).flatMap (fun c => (t'.arrange ctx' c).moved) = [] :=
        List.flatMap_eq_nil_iff.2 fun c hc => by rw [hmember c hc]
      rw [arrange_of_cluster hpart, arrange_of_cluster hpart', h.children_eq, hspread, hfailure,
        ← hfootprints, ← hoffsets, herror, hcollected, herrors, hmoved]
      simp only [Bool.false_and, List.filter_false, List.map_nil, List.append_nil]

/-- The nodes have the frames that they had. -/
theorem frameAfter_eq {n : Netlist α} {members : List (Component α)}
    (hnodes : NodesFit n members t.nodes) (hgrid : ctx.config.strategy = .grid)
    (hunbounded : (1 : α) < unbounded) (u : NodeId) :
    Netlist.frameAfter t' (t'.arrange ctx' 0) u = Netlist.frameAfter t (t.arrange ctx 0) u := by
  induction u using Nat.strongRecOn with
  | _ u ih =>
    cases hp : t.parent? u with
    | none =>
      rw [Netlist.frameAfter, Netlist.frameAfter, frameWith, frameWith, h.parent?, hp]
    | some p =>
      have hlt := hnodes.parent_lt hp
      have hsquare := hnodes.square_frameAfter h.square (t.arrange ctx 0) p
      have hoffset : Netlist.offsetAfter t' (t'.arrange ctx' 0) u =
          Netlist.offsetAfter t (t.arrange ctx 0) u := by
        obtain ⟨s, -, -, hfound⟩ : ∃ s ∈ (t.layoutOf ctx p).siblings, s.node = u ∧
          (t.arrange ctx 0).offsets.lookup u = some s.offset := hnodes.exists_lookup_offsets hp
        rw [Netlist.offsetAfter, Netlist.offsetAfter, h.arrange_eq hgrid hunbounded, hfound]
        rfl
      have hframe : Netlist.frameAfter t' (t'.arrange ctx' 0) u =
          (Netlist.frameAfter t' (t'.arrange ctx' 0) p).compose
            ⟨(Netlist.offsetAfter t (t.arrange ctx 0) u).x,
              (Netlist.offsetAfter t (t.arrange ctx 0) u).y, t'.rotation u⟩ := by
        rw [Netlist.frameAfter, frameWith, h.parent?, hp]
        simp only [if_pos hlt, hoffset]
        rfl
      rw [hframe, ih p hlt, frameAfter_of_parent hnodes _ hp]
      exact Placement.Alike.compose_eq ⟨rfl, rfl, h.rotation u⟩ hsquare (h.square u)

end Settles

end ClusterTree

end Schematic
