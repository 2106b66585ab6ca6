import Schematic.Proofs.Circuit.NetRecords
import Schematic.Proofs.Circuit.Realization

/-!
# The names of nets

A netlist document names every net: by the name that an entry gives it, by that of the
port for which it was made, or, if it has no name, by the first of its pins.  Nobody
compares these names.  They are different where the definition gives no name to two
nets, gives no name that looks like one made from a pin of another net, and has no two
pins whose names made from designator and key read alike.

## Main definitions

* `Build.Titled` — the name of a net is given to one of its pins.
* `PinRef.netName` — the name that is made from a pin.
* `CircuitDef.Gives` — a definition gives a name to a pin.
* `CircuitDef.NamesApart` — a definition keeps the names of different nets apart.
* `SExpr.netNames` — the names of the nets in a document.

## Main statements

* `Build.Titled.tied` — one more pin is tied to a net.
* `CircuitDef.Plays.titled` — every named net has a pin to which its name is given.
* `CircuitDef.netNames_nodup` — the names of the nets of a definition are different.
* `CircuitDef.namesakes_netNames` — they are not, if the definition does not see to it.
-/

namespace Schematic

variable {α : Type}

/-! ### Names while a circuit is built -/

namespace Build

variable {b b' : Build α} {given : String → ComponentId × String → Prop}

/-- The name of a net with pins is given to the place of one of these pins. -/
def Titled (b : Build α) (given : String → ComponentId × String → Prop) : Prop :=
  ∀ m x s, b.net? m = some x → x.name = some s → x.pins ≠ [] →
    ∃ p ∈ x.pins, ∃ t, b.site? p = some t ∧ given s t

/-- A change that leaves the names and the pins of nets alone. -/
theorem Titled.congr (h : b.Titled given)
    (hnets : ∀ m x', b'.net? m = some x' →
      ∃ x, b.net? m = some x ∧ x.name = x'.name ∧ x.pins = x'.pins)
    (hsite : ∀ p t, b.site? p = some t → b'.site? p = some t) : b'.Titled given := by
  intro m x' s hx' hname hne
  obtain ⟨x, hx, hnames, hpins⟩ := hnets m x' hx'
  obtain ⟨p, hp, t, ht, hgiven⟩ := h m x s hx (hnames.trans hname) (hpins ▸ hne)
  exact ⟨p, hpins ▸ hp, t, hsite p t ht, hgiven⟩

theorem Titled.congr_nets (h : b.Titled given) (hnets : b'.nets = b.nets)
    (hsite : ∀ p t, b.site? p = some t → b'.site? p = some t) : b'.Titled given :=
  h.congr (fun m x' hx' => ⟨x', by rwa [net?, ← hnets], rfl, rfl⟩) hsite

/-- Asking for a pin leaves the nets alone. -/
theorem Titled.asked (h : b.Titled given) {t : ComponentId × String} {p : PinId}
    (hasked : b.Asked t p b') : b'.Titled given :=
  h.congr_nets hasked.nets_eq fun _ _ hq => hasked.site?_eq_some.2 (.inl hq)

/-- A new net has no pins yet. -/
theorem Titled.putNet (h : b.Titled given) (name : Option String) :
    (b.putNet name).Titled given := by
  intro m x s hx hname hne
  rw [putNet_net?] at hx
  split at hx
  · cases hx
    exact absurd rfl hne
  · exact h m x s hx hname hne

/-- A pin is put on a net.  If it is the first one, the name of the net is given to it. -/
theorem Titled.attach (h : b.Titled given) {net : NetId} {pin : PinId}
    {t : ComponentId × String} (hsite : b.site? pin = some t)
    (hfirst : ∀ x s, b.net? net = some x → x.name = some s → x.pins = [] → given s t) :
    (b.attach net pin).Titled given := by
  intro m x' s hx' hname hne
  simp only [attach_site?]
  rw [attach_net?] at hx'
  split at hx'
  · next heq =>
    subst heq
    obtain ⟨x, hx, rfl⟩ := Option.map_eq_some_iff.1 hx'
    by_cases hempty : x.pins = []
    · exact ⟨pin, by simp, t, hsite, hfirst x s hx hname hempty⟩
    · obtain ⟨p, hp, hgiven⟩ := h net x s hx hname hempty
      exact ⟨p, List.mem_append_left _ hp, hgiven⟩
  · exact h m x' s hx' hname hne

/-- A pin is put on a net that has no name. -/
theorem Titled.attach_unnamed (h : b.Titled given) {net : NetId} {pin : PinId}
    {t : ComponentId × String} (hsite : b.site? pin = some t)
    (hunnamed : ∀ x, b.net? net = some x → x.name = none) : (b.attach net pin).Titled given := by
  refine h.attach hsite fun x s hx hname _ => ?_
  rw [hunnamed x hx] at hname
  cases hname

/-- One more pin is tied to a net.  If it is the first one, the name of the net is given to it;
and if it brings another net along, the name of that net is given to one of its pins. -/
theorem Titled.tied (h : b.Titled given) (hnets : b.NetsAgree) {net : NetId} {pin : PinId}
    {t : ComponentId × String} (hsite : b.site? pin = some t)
    (hfirst : ∀ x s, b.net? net = some x → x.name = some s → x.pins = [] → given s t)
    (tied : Tied b net (.pin pin) b') : b'.Titled given := by
  cases tied with
  | same live on => exact h
  | attach live known free unmarked room => exact h.attach hsite hfirst
  | @absorb _ source n r live on ne unmarked other room =>
    have hpin : pin ∈ r.pins := (hnets.mem_iff other pin).2 on
    intro m x' s hx' hname hne
    simp only [absorb_site?]
    rw [absorb_net? b ne] at hx'
    split at hx'
    · cases hx'
    split at hx'
    · next heq =>
      subst heq
      rw [live] at hx'
      cases hx'
      simp only [Net.absorb, List.mem_append] at hname ⊢
      cases hn : n.name with
      | none =>
        -- the net gets the name of the one that comes along
        rw [hn] at hname
        obtain ⟨p, hp, hgiven⟩ := h source r s other hname (List.ne_nil_of_mem hpin)
        exact ⟨p, .inr hp, hgiven⟩
      | some s' =>
        obtain rfl : s' = s := by
          rw [hn] at hname
          exact Option.some.inj hname
        by_cases hempty : n.pins = []
        · exact ⟨pin, .inr hpin, t, hsite, hfirst n s' live hn hempty⟩
        · obtain ⟨p, hp, hgiven⟩ := h net n s' live hn hempty
          exact ⟨p, .inl hp, hgiven⟩
    · exact h m x' s hx' hname hne

/-- A net to which a pin has been tied has pins. -/
theorem Tied.pins_ne_nil (hnets : b.NetsAgree) {net : NetId} {pin : PinId}
    (tied : Tied b net (.pin pin) b') {x : Net} (hx : b'.net? net = some x) : x.pins ≠ [] := by
  cases tied with
  | same live on => exact List.ne_nil_of_mem ((hnets.mem_iff hx pin).2 on)
  | attach live known free unmarked room =>
    rw [attach_net?, if_pos rfl, live] at hx
    cases hx
    simp
  | absorb live on ne unmarked other room =>
    rw [absorb_net? b ne, if_neg ne.symm, if_pos rfl, live] at hx
    cases hx
    have hpin := (hnets.mem_iff other pin).2 on
    simp [Net.absorb, List.ne_nil_of_mem hpin]

/-- A marker joins a net that has pins, or a new one without a name. -/
theorem Titled.markNoConnect (h : b.Titled given) (hnets : b.NetsAgree) {target : PinId}
    {reason : Option String} {marker : ComponentId}
    (ok : markNoConnect target reason b = .ok marker b') : b'.Titled given := by
  obtain ⟨p, b₁, net, hp, -, -, rfl, htied⟩ := markNoConnect_ok ok
  have hkeep : ∀ q t, b.site? q = some t → (b.withMarker p reason).site? q = some t := by
    intro q t hq
    rw [site?_withMarker, if_neg (Nat.ne_of_lt (lt_size_of_site? hq)), hq]
  have hmarked : (b.withMarker p reason).Titled given :=
    h.congr_nets (putComponent_nets ..) hkeep
  have hmarker : (b.withMarker p reason).site? b.pins.size =
      some (b.components.size, b.markerKey) := by
    rw [site?_withMarker, if_pos rfl]
  obtain ⟨t, ht⟩ : ∃ t, b.site? target = some t := ⟨_, by rw [site?, hp]; rfl⟩
  have hlast : b₁.Titled given := by
    rcases htied.eq_attach hp with ⟨on, rfl⟩ | ⟨free, rfl, rfl⟩
    · refine hmarked.attach hmarker fun x s hx hname hempty => ?_
      have hx' : b.net? net = some x := by
        rwa [net?, show (b.withMarker p reason).nets = b.nets from putComponent_nets ..] at hx
      have hmem := (hnets.mem_iff hx' target).2 ((netOf?_of_pin hp).trans on)
      rw [hempty] at hmem
      cases hmem
    · have hunnamed : ∀ x, ((b.withMarker p reason).putNet none).net? b.nets.size = some x →
          x.name = none := by
        intro x hx
        have hsize : (b.withMarker p reason).nets.size = b.nets.size :=
          congrArg Array.size (putComponent_nets ..)
        rw [putNet_net?, hsize, if_pos rfl] at hx
        cases hx
        rfl
      have hone := (hmarked.putNet none).attach_unnamed (hkeep target t ht) hunnamed
      refine hone.attach_unnamed ((attach_site? ..).trans hmarker) fun x hx => ?_
      rw [attach_net?, if_pos rfl] at hx
      obtain ⟨y, hy, rfl⟩ := Option.map_eq_some_iff.1 hx
      exact hunnamed y hy
  exact hlast.congr_nets rfl fun q t hq => (setNoConnect_site? ..).trans hq

end Build

/-! ### The names that a definition gives -/

namespace PinRef

/-- Designator and key as they stand in a name that is made from a pin. -/
def padText (r : PinRef) : String := r.reference ++ "-Pad" ++ r.key

/-- The name that is made from the first pin of a net, which depends on whether it is left
unconnected. -/
def netName (unconnected : Bool) (r : PinRef) : String :=
  (if unconnected then "unconnected" else "Net") ++ "-(" ++ r.padText ++ ")"

/-- Names that are made from pins tell whether a net is left unconnected, and are told apart by
designator and key. -/
theorem netName_inj {u u' : Bool} {r r' : PinRef} (h : r.netName u = r'.netName u') :
    u = u' ∧ r.padText = r'.padText := by
  have hlist := congrArg String.toList h
  simp only [netName, String.toList_append] at hlist
  cases u <;> cases u'
  · exact ⟨rfl, String.ext (by simpa using hlist)⟩
  · exact absurd (congrArg List.head? hlist) (by simp)
  · exact absurd (congrArg List.head? hlist) (by simp)
  · exact ⟨rfl, String.ext (by simpa using hlist)⟩

end PinRef

/-! ### Names in documents -/

/-- The names of the nets in a document. -/
def SExpr.netNames (e : SExpr α) : List (Option String) :=
  ((e.children "nets").flatMap (·.children "net")).map fun x => x.entry? "name"

namespace Netlist

variable {n : Netlist α}

/-- The document lists the names of the nets that have functional pins. -/
theorem netNames_document (n : Netlist α) :
    n.document.netNames = n.functionalNets.map fun k => some (n.netName k) := by
  have hhead : ∀ x ∈ n.functionalNets.mapIdx fun i net => n.netRecord (i + 1) net,
      x.head? = some "net" := by
    intro x hx
    obtain ⟨i, -, rfl⟩ := List.mem_mapIdx.1 hx
    rfl
  have hname : ∀ code k, SExpr.entry? "name" (n.netRecord code k) = some (n.netName k) := by
    intro code k
    simp [netRecord, SExpr.entry?]
  have hnets : n.document.children "nets" = [.record "nets"
      (n.functionalNets.mapIdx fun i net => n.netRecord (i + 1) net)] := by
    simp [document]
  have hzip : (n.functionalNets.zipIdx.map Prod.fst).map (fun k => some (n.netName k)) =
      n.functionalNets.zipIdx.map fun e => some (n.netName e.1) := List.map_map
  rw [List.zipIdx_map_fst] at hzip
  rw [SExpr.netNames, hnets, List.flatMap_singleton, SExpr.children_record_of_head hhead,
    if_pos rfl, List.mapIdx_eq_zipIdx_map, List.map_map, hzip]
  exact List.map_congr_left fun e _ => hname _ _

/-- The names in a document are different where nets of one name are one net. -/
theorem nodup_netNames_document
    (h : ∀ k ∈ n.functionalNets, ∀ m ∈ n.functionalNets, n.netName k = n.netName m → k = m) :
    n.document.netNames.Nodup := by
  rw [netNames_document]
  refine List.Nodup.map_on (fun k hk m hm heq => h k hk m hm (Option.some.inj heq)) ?_
  exact n.functionalNets_pairwise.imp fun hlt => Nat.ne_of_lt hlt

/-- A net with functional pins has a name of its own, or one that is made from one of them. -/
theorem WellFormed.netName_cases (h : n.WellFormed) {k : NetId} (hk : k ∈ n.functionalNets) :
    (∃ x s, n.nets[k]? = some x ∧ x.name = some s ∧ n.netName k = s) ∨
      ∃ p r, p ∈ n.functionalPins k ∧ n.StandsFor p r ∧
        n.netName k = r.netName (n.isNoConnectNet k) := by
  obtain ⟨q, hq⟩ := mem_functionalNets_iff.1 hk
  cases hname : n.nets[k]?.bind (·.name) with
  | some s =>
    obtain ⟨x, hx, hs⟩ := Option.bind_eq_some_iff.1 hname
    exact .inl ⟨x, s, hx, hs, by rw [netName, hname]⟩
  | none =>
    cases hpins : n.functionalPins k with
    | nil =>
      rw [hpins] at hq
      cases hq
    | cons p ps =>
      have hp : p ∈ n.functionalPins k := by rw [hpins]; exact List.mem_cons_self
      obtain ⟨x, c, hx, -, hc, hmarker⟩ := (h.mem_functionalPins_iff k p).1 hp
      refine .inr ⟨p, _, List.mem_cons_self, ⟨x, c, hx, hc, hmarker, rfl⟩, ?_⟩
      rw [netName, hname, hpins]
      simp only [List.head?_cons, Option.bind_some, hx, referenceOf, hc, Option.map_some,
        Option.getD_some, PinRef.netName, PinRef.padText, String.append_assoc]

end Netlist

namespace CircuitDef

variable (circuit : CircuitDef α) (form : String → String → String)

/-- A definition gives a name to a pin: an entry of that name lists the pin, or a port of that
name addresses it and no entry lists it. -/
inductive Gives (s : String) (r : PinRef) : Prop
  /-- The name of an entry that lists it. -/
  | entry {i : Nat} {d : NetDef} (declared : circuit.nets[i]? = some d) (named : d.name = some s)
      (lists : circuit.Lists form i r)
  /-- The name of a port, for a pin in no entry. -/
  | port {d : ComposableDef α} {text : String} (declared : d ∈ circuit.composables)
      (named : (s, text) ∈ d.ports.entries) (addresses : circuit.Addresses form text r)
      (unlisted : ∀ i, ¬ circuit.Lists form i r)

/-- A definition keeps the names of different nets apart. -/
structure NamesApart : Prop where
  /-- No name is given to pins of two nets. -/
  given : ∀ s r r', circuit.Gives form s r → circuit.Gives form s r' →
    Linked (circuit.Lists form) r r'
  /-- No name is given that is made from a pin of another net. -/
  made : ∀ u r r', circuit.Gives form (r'.netName u) r → circuit.Mentions form r' →
    Linked (circuit.Lists form) r r'
  /-- No two pins of different nets read alike. -/
  pads : ∀ r r', circuit.Mentions form r → circuit.Mentions form r' → r.padText = r'.padText →
    Linked (circuit.Lists form) r r'

open Build

section Play

variable {circuit} {numbering : PinNumbering} {kept : Option PinNumbering}
  {composables refs : Names} {a b b' c : Build α} {home : NetId → NetId}
  {given : String → ComponentId × String → Prop}

/-- The pins of an entry are tied to its net, and its name is given to each of them. -/
theorem tieAll_titled (ha : Declared refs a) {texts : List String} {net : NetId} {u : Unit}
    (hab : Connects a b) (h : b.Titled given)
    (hgiven : ∀ x s, b.net? net = some x → x.name = some s → x.pins = [] →
      ∀ text ∈ texts, ∀ t, siteOf? numbering refs a text = some t → given s t)
    (ok : tieAll numbering refs net texts b = .ok u b') : Connects a b' ∧ b'.Titled given := by
  induction texts generalizing b with
  | nil =>
    cases ok
    exact ⟨hab, h⟩
  | cons text texts ih =>
    simp only [tieAll, ReplayM.bind_ok_iff, ReplayM.ofBuild_ok_iff, tie_ok_iff] at ok
    obtain ⟨p, b₁, hresolve, -, b₂, htied, hrest⟩ := ok
    obtain ⟨t, ht, hasked⟩ := resolvePin_ok (ha.owned_of hab) hresolve
    rw [siteOf?_eq ha.refers hab] at ht
    have hab₁ := hab.trans hasked.connects
    have h₂ : b₂.Titled given := by
      refine (h.asked hasked).tied (ha.agree_of hab₁) hasked.site (fun x s hx hname hempty => ?_) htied
      rw [net?, hasked.nets_eq] at hx
      exact hgiven x s hx hname hempty text List.mem_cons_self t ht
    -- from now on the net has pins
    refine ih (hab₁.trans htied.connects) h₂ (fun x s hx _ hempty => ?_) hrest
    exact absurd hempty (htied.pins_ne_nil (ha.agree_of hab₁) hx)

/-- The entries are played one after the other, and the name of each is given to its pins. -/
theorem addNets_titled (ha : Declared refs a) {ds : List NetDef} {u : Unit}
    (hab : Connects a b) (h : b.Titled given)
    (hgiven : ∀ d ∈ ds, ∀ s, d.name = some s → ∀ text ∈ d.pins, ∀ t,
      siteOf? numbering refs a text = some t → given s t)
    (ok : addNets numbering refs ds b = .ok u b') : b'.Titled given := by
  induction ds generalizing b with
  | nil =>
    cases ok
    exact h
  | cons d ds ih =>
    simp only [addNets, ReplayM.bind_ok_iff, ReplayM.ofBuild_ok_iff, addNet_apply, setPower,
      changeNet_ok_iff] at ok
    obtain ⟨net, _, ⟨⟩, -, b₁, ⟨-, rfl⟩, _, b₂, htie, hrest⟩ := ok
    rw [List.forall_mem_cons] at hgiven
    have hab₁ := (hab.trans (connects_putNet d.name)).trans (connects_power b.nets.size d.power)
    have h₁ : ((b.putNet d.name).modifyNet b.nets.size fun n =>
        { n with power := d.power }).Titled given := by
      refine (h.putNet d.name).congr (fun m x' hx' => ?_) fun _ _ hq => hq
      rw [modifyNet_net?] at hx'
      split at hx'
      · obtain ⟨x, hx, rfl⟩ := Option.map_eq_some_iff.1 hx'
        exact ⟨x, hx, rfl, rfl⟩
      · exact ⟨x', hx', rfl, rfl⟩
    have hfirst : ∀ x s, ((b.putNet d.name).modifyNet b.nets.size fun n =>
        { n with power := d.power }).net? b.nets.size = some x → x.name = some s →
          d.name = some s := by
      intro x s hx hname
      rw [modifyNet_net?, if_pos rfl, putNet_net?, if_pos rfl] at hx
      cases hx
      exact hname
    obtain ⟨hab₂, h₂⟩ := tieAll_titled ha hab₁ h₁
      (fun x s hx hname _ => hgiven.1 s (hfirst x s hx hname)) htie
    exact ih hab₂ h₂ hgiven.2 hrest

/-- A pin that is on no net was on none before the ports were exposed. -/
theorem Kept.free_before {more : List (ComponentId × String)} (h : Kept c b more)
    (hpins : b.PinsOwned) {p q : PinId} {t : ComponentId × String} (hsite : b.site? p = some t)
    (free : b.netOf? p = none) (hq : c.site? q = some t) : c.netOf? q = none := by
  obtain rfl := hpins.eq_of_site? (site?_of_chain h.connects.chain hq) hsite
  cases hon : c.netOf? q with
  | none => rfl
  | some m =>
    rw [h.apart.netOf?_eq q m hon] at free
    cases free

/-- Ports are exposed, and the name of each is given to its pin if that is on no net. -/
theorem exposePorts_titled (ha : Declared refs a) (hac : Connects a c) {id : ComposableId}
    {ports : List (String × String)} {u : Unit} {more : List (ComponentId × String)}
    (hkept : Kept c b more) (h : b.Titled given)
    (hgiven : ∀ e ∈ ports, ∀ t, siteOf? numbering refs a e.2 = some t →
      (∀ p, c.site? p = some t → c.netOf? p = none) → given e.1 t)
    (ok : exposePorts numbering refs id ports b = .ok u b') :
    (∃ more', Kept c b' more') ∧ b'.Titled given := by
  induction ports generalizing b more with
  | nil =>
    cases ok
    exact ⟨⟨_, hkept⟩, h⟩
  | cons e rest ih =>
    obtain ⟨port, text⟩ := e
    rw [List.forall_mem_cons] at hgiven
    obtain ⟨p, b₁, net, b₂, b₃, hresolve, hnet, hexpose, hrest⟩ := exposePorts_cons ok
    obtain ⟨t, ht, hkept₁, hkept₃⟩ := hkept.exposed ha hac hresolve hnet hexpose
    have hab := hac.trans hkept.connects
    have hab₁ := hac.trans hkept₁.connects
    obtain ⟨t', ht', hasked⟩ := resolvePin_ok (ha.owned_of hab) hresolve
    obtain rfl : t' = t := by
      rw [siteOf?_eq ha.refers hab, ht] at ht'
      exact (Option.some.inj ht').symm
    have h₁ : b₁.Titled given := h.asked hasked
    have h₂ : b₂.Titled given := by
      rcases hnet with rfl | ⟨free, rfl, tied⟩
      · exact h₁
      have hfree : ∀ q, c.site? q = some t' → c.netOf? q = none := fun q =>
        hkept₁.free_before (ha.owned_of hab₁) hasked.site free
      refine (h₁.putNet (some port)).tied (ha.agree_of (hab₁.trans (connects_putNet _)))
        hasked.site (fun x s hx hname _ => ?_) tied
      rw [putNet_net?, if_pos rfl] at hx
      cases hx
      cases hname
      exact hgiven.1 t' ht hfree
    have h₃ : b₃.Titled given := by
      obtain ⟨-, -, rfl⟩ := expose_ok hexpose
      exact h₂.congr_nets rfl fun _ _ hq => hq
    exact ih hkept₃ h₃ hgiven.2 hrest

/-- All ports are exposed. -/
theorem exposeAll_titled (ha : Declared refs a) (hac : Connects a c)
    {ds : List (ComposableDef α)} {u : Unit} {more : List (ComponentId × String)}
    (hkept : Kept c b more) (h : b.Titled given)
    (hgiven : ∀ d ∈ ds, ∀ e ∈ d.ports.entries, ∀ t, siteOf? numbering refs a e.2 = some t →
      (∀ p, c.site? p = some t → c.netOf? p = none) → given e.1 t)
    (ok : exposeAll numbering refs composables ds b = .ok u b') :
    (∃ more', Kept c b' more') ∧ b'.Titled given := by
  induction ds generalizing b more with
  | nil =>
    cases ok
    exact ⟨⟨_, hkept⟩, h⟩
  | cons d ds ih =>
    rw [List.forall_mem_cons] at hgiven
    cases hid : composables.lookup d.name with
    | none =>
      simp only [exposeAll, hid] at ok
      exact ih hkept h hgiven.2 ok
    | some id =>
      simp only [exposeAll, hid, ReplayM.bind_ok_iff] at ok
      obtain ⟨_, b₁, hports, hrest⟩ := ok
      obtain ⟨⟨more', hkept₁⟩, h₁⟩ := exposePorts_titled ha hac hkept h hgiven.1 hports
      exact ih hkept₁ h₁ hgiven.2 hrest

/-- Marking pins gives no names. -/
theorem markAll_titled (ha : Declared refs a) (hab : Connects a b) {ds : List NoConnectDef}
    {u : Unit} (h : b.Titled given) (ok : markAll numbering refs ds b = .ok u b') :
    b'.Titled given := by
  induction ds generalizing b with
  | nil =>
    cases ok
    exact h
  | cons d ds ih =>
    simp only [markAll, ReplayM.bind_ok_iff, ReplayM.ofBuild_ok_iff] at ok
    obtain ⟨p, b₁, hresolve, marker, b₂, hmark, hrest⟩ := ok
    obtain ⟨t, -, hasked⟩ := resolvePin_ok (ha.owned_of hab) hresolve
    have hab₁ := hab.trans hasked.connects
    exact ih (hab₁.trans (connects_markNoConnect hmark))
      ((h.asked hasked).markNoConnect (ha.agree_of hab₁) hmark) hrest

section Netlist

variable [Scalar α]

/-- A definition is played so that the name of a net with pins is one that the definition gives
to the pin at the place of one of them. -/
theorem plays_titled {name : String} {u : Unit}
    (ok : circuit.replay numbering { name, numbering := kept } = .ok u b) :
    ∃ composables refs a c home, circuit.Plays numbering kept composables refs a c b home ∧
      b.Titled fun s t => ∃ r, refAt? a t = some r ∧ circuit.Gives (numbering.form kept) s r := by
  obtain ⟨composables, refs, a, c, e, home, h, hnets, hports, hmarks⟩ := plays_of_steps ok
  refine ⟨composables, refs, a, c, home, h, ?_⟩
  have ha := h.toDeclared
  let given : String → ComponentId × String → Prop := fun s t =>
    ∃ r, refAt? a t = some r ∧ circuit.Gives (numbering.form kept) s r
  have hentry : ∀ d ∈ circuit.nets, ∀ s, d.name = some s → ∀ text ∈ d.pins, ∀ t,
      siteOf? numbering refs a text = some t → given s t := by
    intro d hd s hname text htext t ht
    obtain ⟨r, hr⟩ := exists_refAt? ht
    obtain ⟨i, hi⟩ := List.mem_iff_getElem?.1 hd
    exact ⟨r, hr, .entry hi hname ⟨d, text, hi, htext, h.addresses_iff.2 ⟨t, ht, hr⟩⟩⟩
  have hport : ∀ d ∈ circuit.composables, ∀ e ∈ d.ports.entries, ∀ t,
      siteOf? numbering refs a e.2 = some t → (∀ p, c.site? p = some t → c.netOf? p = none) →
        given e.1 t := by
    intro d hd e he t ht hfree
    obtain ⟨r, hr⟩ := exists_refAt? ht
    refine ⟨r, hr, .port hd he (h.addresses_iff.2 ⟨t, ht, hr⟩) fun i hlists => ?_⟩
    -- a pin in an entry is on a net before the ports are exposed
    obtain ⟨s, hs, hr'⟩ := h.lists_iff.1 hlists
    obtain rfl := h.refers.eq_of_refAt? hr hr'
    obtain ⟨p, hp⟩ := (h.settled.listed t).2 ⟨i, hs⟩
    have hon := h.settled.pin p t i hp hs
    rw [hfree p hp] at hon
    cases hon
  have hempty : a.Titled given := by
    intro m x s hx
    simp [net?, h.nets_eq] at hx
  have hc := addNets_titled ha (.refl a) hempty hentry hnets
  obtain ⟨⟨more, he⟩, htitled⟩ := exposeAll_titled ha h.connects (.refl c) hc hport hports
  exact markAll_titled ha (h.connects.trans he.connects) htitled hmarks

variable (h : circuit.Plays numbering kept composables refs a c b home)
include h

/-- Pins of which a chain of entries links the references are on one net. -/
theorem Plays.net_eq_of_linked (hwf : b.toNetlist.WellFormed) {k m : NetId} {p q : PinId}
    {r r' : PinRef} (hp : p ∈ b.toNetlist.functionalPins k) (hr : b.toNetlist.StandsFor p r)
    (hq : q ∈ b.toNetlist.functionalPins m) (hr' : b.toNetlist.StandsFor q r')
    (hlinked : Linked (circuit.Lists (numbering.form kept)) r r') : k = m := by
  have hon := (hwf.mem_functionalPins_iff k p).1 hp
  have hon' := (hwf.mem_functionalPins_iff m q).1 hq
  by_cases hne : r = r'
  · subst hne
    obtain rfl := h.pin_unique hr hr'
    exact hon.net_eq hon'
  · obtain ⟨net, hpnet, hqnet⟩ := (h.same_net_iff hr hr' hne).2 hlinked
    obtain ⟨x, -, hx, hxk, -⟩ := hon
    obtain ⟨y, -, hy, hym, -⟩ := hon'
    have hk : b.toNetlist.asBuild.netOf? p = some k := (netOf?_of_pin hx).trans hxk
    have hm : b.toNetlist.asBuild.netOf? q = some m := (netOf?_of_pin hy).trans hym
    rw [hpnet] at hk
    rw [hqnet] at hm
    exact (Option.some.inj hk).symm.trans (Option.some.inj hm)

/-- The name of a net with functional pins is given to one of them, or made from one. -/
theorem Plays.netName_cases (hwf : b.toNetlist.WellFormed)
    (htitled : b.Titled fun s t => ∃ r, refAt? a t = some r ∧
      circuit.Gives (numbering.form kept) s r) {k : NetId}
    (hk : k ∈ b.toNetlist.functionalNets) :
    ∃ p r, p ∈ b.toNetlist.functionalPins k ∧ b.toNetlist.StandsFor p r ∧
      (circuit.Gives (numbering.form kept) (b.toNetlist.netName k) r ∨
        ∃ u, b.toNetlist.netName k = r.netName u) := by
  rcases hwf.netName_cases hk with ⟨x, s, hx, hname, heq⟩ | ⟨p, r, hp, hr, heq⟩
  · obtain ⟨q, hq⟩ := Netlist.mem_functionalNets_iff.1 hk
    obtain ⟨m, y, hy, -, rfl⟩ := exists_of_toNetlist_nets hx
    have hpins : b.toNetlist.netPins k = y.pins := by rw [Netlist.netPins, hx]; rfl
    have hne : y.pins ≠ [] := by
      rw [← hpins]
      exact List.ne_nil_of_mem (List.mem_filter.1 hq).1
    obtain ⟨p, hp, t, ht, r, hr, hgives⟩ := htitled m y s hy hname hne
    have hstands := h.standsFor_iff.2 ⟨t, ht, hr⟩
    refine ⟨p, r, List.mem_filter.2 ⟨hpins ▸ hp, ?_⟩, hstands, .inl (heq ▸ hgives)⟩
    obtain ⟨z, c', hz, hc', hmarker, -⟩ := hstands
    simp [Netlist.isMarkerPin, Netlist.owner?, hz, hc', hmarker]
  · exact ⟨p, r, hp, hr, .inr ⟨_, heq⟩⟩

omit h in
/-- The nets of a circuit into which a definition has been played have different names, if the
definition keeps the names of different nets apart. -/
theorem netNames_nodup {name : String}
    (apart : circuit.NamesApart (numbering.form kept))
    (ok : circuit.replay numbering { name, numbering := kept } = .ok ⟨⟩ b) :
    b.toNetlist.document.netNames.Nodup := by
  obtain ⟨composables, refs, a, c, home, h, htitled⟩ := plays_titled ok
  have hwf := toNetlist_wellFormed (h.wellFormed_of h.connects_all)
  refine Netlist.nodup_netNames_document fun k hk m hm heq => ?_
  obtain ⟨p, r, hp, hr, hcase⟩ := h.netName_cases hwf htitled hk
  obtain ⟨q, r', hq, hr', hcase'⟩ := h.netName_cases hwf htitled hm
  have hmention : circuit.Mentions (numbering.form kept) r := (h.pin_iff r).1 ⟨p, hr⟩
  have hmention' : circuit.Mentions (numbering.form kept) r' := (h.pin_iff r').1 ⟨q, hr'⟩
  rw [← heq] at hcase'
  rcases hcase with hgives | ⟨u, hmade⟩ <;> rcases hcase' with hgives' | ⟨u', hmade'⟩
  · exact h.net_eq_of_linked hwf hp hr hq hr' (apart.given _ r r' hgives hgives')
  · rw [hmade'] at hgives
    exact h.net_eq_of_linked hwf hp hr hq hr' (apart.made u' r r' hgives hmention')
  · rw [hmade] at hgives'
    exact (h.net_eq_of_linked hwf hq hr' hp hr (apart.made u r' r hgives' hmention)).symm
  · -- names of both kinds are told apart by their first letter
    have hpads := (PinRef.netName_inj (hmade.symm.trans hmade')).2
    exact h.net_eq_of_linked hwf hp hr hq hr' (apart.pads r r' hmention hmention' hpads)

end Netlist

end Play

/-! ### Definitions that do and do not keep names apart -/

/-- With keys taken as they are written, what a text addresses is what it reads as. -/
theorem parse?_of_addresses {circuit : CircuitDef α} {text : String} {r : PinRef}
    (h : circuit.Addresses (PinNumbering.form literalPins none) text r) :
    PinRef.parse? text = some r := by
  obtain ⟨parsed, d, hparse, -, hreference, rfl⟩ := h
  rw [hparse, hreference]
  rfl

/-- A bell and its switch between two lines, one of which has no name, and a port for a pin in
no entry. -/
def bell : CircuitDef Float where
  name := "bell"
  composables := [{ name := "box", ports := ⟨[("sense", "S1.3")]⟩ }]
  components := [{ reference := "S1", symbol := "Switch:SW_SPDT" },
    { reference := "R1", symbol := "Device:Buzzer" }]
  nets := [{ name := some "line", pins := ["S1.1", "R1.1"] }, { pins := ["S1.2", "R1.2"] }]

/-- The pins of the named line of the bell. -/
def linePins : List PinRef := [⟨"S1", "1"⟩, ⟨"R1", "1"⟩]

/-- The pins of the bell, in its entries and at its port. -/
def bellPins : List PinRef := linePins ++ [⟨"S1", "2"⟩, ⟨"R1", "2"⟩, ⟨"S1", "3"⟩]

theorem mem_bellPins_of_mentions {r : PinRef}
    (h : bell.Mentions (PinNumbering.form literalPins none) r) : r ∈ bellPins := by
  obtain ⟨text, htext, haddresses⟩ := h
  have hall : bell.pinTexts.filterMap PinRef.parse? = bellPins := by decide +kernel
  rw [← hall]
  exact List.mem_filterMap.2 ⟨text, htext, parse?_of_addresses haddresses⟩

/-- The bell gives two names. -/
theorem bell_gives {s : String} {r : PinRef}
    (h : bell.Gives (PinNumbering.form literalPins none) s r) :
    s = "line" ∧ r ∈ linePins ∨ s = "sense" ∧ r = ⟨"S1", "3"⟩ := by
  cases h with
  | @entry i d declared named lists =>
    obtain ⟨d', text, hd, htext, haddresses⟩ := lists
    obtain rfl := Option.some.inj (declared.symm.trans hd)
    match i, declared with
    | 0, rfl =>
      have hall : ["S1.1", "R1.1"].filterMap PinRef.parse? = linePins := by decide +kernel
      refine .inl ⟨(Option.some.inj named).symm, ?_⟩
      rw [← hall]
      exact List.mem_filterMap.2 ⟨text, htext, parse?_of_addresses haddresses⟩
    | 1, rfl => cases named
  | port declared named addresses unlisted =>
    obtain rfl := List.mem_singleton.1 declared
    cases List.mem_singleton.1 named
    have hsense : PinRef.parse? "S1.3" = some ⟨"S1", "3"⟩ := by decide +kernel
    have hread := parse?_of_addresses addresses
    rw [hsense] at hread
    exact .inr ⟨rfl, (Option.some.inj hread).symm⟩

theorem bell_namesApart : bell.NamesApart (PinNumbering.form literalPins none) where
  given s r r' h h' := by
    rcases bell_gives h with ⟨rfl, hr⟩ | ⟨rfl, rfl⟩ <;>
      rcases bell_gives h' with ⟨hs, hr'⟩ | ⟨hs, rfl⟩
    · -- both are pins of the first entry
      have hlists : ∀ q ∈ linePins,
          bell.Lists (PinNumbering.form literalPins none) 0 q := by
        simp only [linePins, List.forall_mem_cons]
        exact ⟨⟨_, "S1.1", rfl, by decide, ⟨"S1", "1"⟩, _, by decide +kernel, List.mem_cons_self,
          rfl, rfl⟩, ⟨_, "R1.1", rfl, by decide, ⟨"R1", "1"⟩, _, by decide +kernel,
            List.mem_cons_of_mem _ List.mem_cons_self, rfl, rfl⟩, nofun⟩
      exact .single ⟨0, hlists r hr, hlists r' hr'⟩
    · exact absurd hs (by decide)
    · exact absurd hs (by decide)
    · exact .refl
  made u r r' h hmention := by
    have hother : ∀ q ∈ bellPins, ∀ u, q.netName u ≠ "line" ∧ q.netName u ≠ "sense" := by
      decide +kernel
    have hne := hother r' (mem_bellPins_of_mentions hmention) u
    rcases bell_gives h with ⟨heq, -⟩ | ⟨heq, -⟩
    · exact absurd heq hne.1
    · exact absurd heq hne.2
  pads r r' h h' heq := by
    have hinj : ∀ q ∈ bellPins, ∀ q' ∈ bellPins, q.padText = q'.padText → q = q' := by
      decide +kernel
    rw [hinj r (mem_bellPins_of_mentions h) r' (mem_bellPins_of_mentions h') heq]
    exact .refl

/-- The bell keeps the names of its nets apart, and they are different. -/
theorem bell_netNames : ∃ b, bell.replay literalPins { name := "bell" } = .ok ⟨⟩ b ∧
    bell.NamesApart (PinNumbering.form literalPins none) ∧
      b.toNetlist.document.netNames.Nodup := by
  have haccepted : (match bell.replay literalPins { name := "bell" } with
      | .ok .. => true
      | .error .. => false) = true := by decide +kernel
  obtain ⟨b, ok⟩ : ∃ b, bell.replay literalPins { name := "bell" } = .ok ⟨⟩ b := by
    split at haccepted
    · next b h => exact ⟨b, h⟩
    · cases haccepted
  exact ⟨b, ok, bell_namesApart, netNames_nodup bell_namesApart ok⟩

/-- Two entries of one name, a name that is made from the pin of another net, and two pins that
read alike. -/
def namesakes : CircuitDef Float where
  name := "namesakes"
  components := [{ reference := "R1", symbol := "Device:R" },
    { reference := "A", symbol := "Device:R" }, { reference := "A-PadB", symbol := "Device:R" }]
  nets := [{ name := some "in", pins := ["R1.1"] }, { name := some "in", pins := ["R1.2"] },
    { pins := ["R1.3"] }, { name := some "Net-(R1-Pad3)", pins := ["R1.4"] },
    { pins := ["A.B-Pad1"] }, { pins := ["A-PadB.1"] }]

/-- The definition is accepted, and its six nets have three names. -/
theorem namesakes_netNames : ∃ b,
    namesakes.replay literalPins { name := "namesakes" } = .ok ⟨⟩ b ∧
      b.toNetlist.document.netNames = [some "in", some "in", some "Net-(R1-Pad3)",
        some "Net-(R1-Pad3)", some "Net-(A-PadB-Pad1)", some "Net-(A-PadB-Pad1)"] ∧
      ¬ b.toNetlist.document.netNames.Nodup := by
  have hnames : (match namesakes.replay literalPins { name := "namesakes" } with
      | .ok _ b => some b.toNetlist.document.netNames
      | .error .. => none) = some [some "in", some "in", some "Net-(R1-Pad3)",
        some "Net-(R1-Pad3)", some "Net-(A-PadB-Pad1)", some "Net-(A-PadB-Pad1)"] := by
    decide +kernel
  split at hnames
  · next b ok =>
    have heq := Option.some.inj hnames
    refine ⟨b, ok, heq, ?_⟩
    rw [heq]
    decide
  · cases hnames

end CircuitDef

end Schematic
