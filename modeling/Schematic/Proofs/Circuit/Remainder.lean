import Schematic.Proofs.Circuit.Entries

/-!
# Ports and unconnected pins of a definition

Once the nets of a definition are there, exposing ports and marking unconnected
pins connects no two pins of components any more: a pin that is new gets a net of
its own, and besides it only the pins of markers are put on nets.

## Main definitions

* `Build.Apart` — what has been added is kept apart from the nets that were there.
* `CircuitDef.Kept` — the nets are kept, and pins of some references are added.

## Main statements

* `Build.Apart.attach` — a pin of a marker, or a pin of its own net, is put on it.
* `CircuitDef.exposeAll_kept`, `CircuitDef.markAll_kept` — exposing all ports and
  marking all unconnected pins keeps the nets.
-/

namespace Schematic

open Relation (ReflTransGen)

variable {α : Type}

namespace Build

variable {b b' c : Build α}

/-- What has been added since the circuit was `c` is kept apart from the nets there were:
pins stay on their nets, and a pin that is new and functional has a new net to itself, but
for markers. -/
structure Apart (c b : Build α) : Prop where
  /-- Nets are never taken away. -/
  size_le : c.nets.size ≤ b.nets.size
  /-- A pin stays on its net. -/
  netOf?_eq : ∀ p m, c.netOf? p = some m → b.netOf? p = some m
  /-- The nets there were stay live, and power nets or not. -/
  power_eq : ∀ m < c.nets.size, (b.net? m).map (·.power) = (c.net? m).map (·.power)
  /-- A new net is no power net. -/
  new_power : ∀ m net, c.nets.size ≤ m → b.net? m = some net → net.power = false
  /-- A new functional pin is on a new net. -/
  new_net : ∀ p m, c.pins.size ≤ p → b.isMarkerPin p = false → b.netOf? p = some m →
    c.nets.size ≤ m
  /-- No other functional pin is on that net. -/
  lone : ∀ p q m, c.pins.size ≤ p → b.isMarkerPin p = false → b.isMarkerPin q = false →
    b.netOf? p = some m → b.netOf? q = some m → q = p

theorem Apart.refl (c : Build α) : Apart c c where
  size_le := Nat.le_refl _
  netOf?_eq _ _ h := h
  power_eq _ _ := rfl
  new_power _ _ hm hnet := absurd (lt_size_of_net? hnet) (Nat.not_lt.2 hm)
  new_net _ _ hp _ hpm := absurd (lt_size_of_netOf? hpm) (Nat.not_lt.2 hp)
  lone _ _ _ hp _ _ hpm _ := absurd (lt_size_of_netOf? hpm) (Nat.not_lt.2 hp)

/-- A change that leaves alone the nets, and the pins that are on them. -/
theorem Apart.congr (h : Apart c b) (hnets : b'.nets = b.nets)
    (hnetOf : ∀ p, b'.netOf? p = b.netOf? p)
    (hmarker : ∀ p, p < b.pins.size → b'.isMarkerPin p = b.isMarkerPin p) : Apart c b' where
  size_le := hnets ▸ h.size_le
  netOf?_eq p m hp := (hnetOf p).trans (h.netOf?_eq p m hp)
  power_eq m hm := by rw [net?, hnets]; exact h.power_eq m hm
  new_power m net hm hnet := h.new_power m net hm (by rwa [net?, hnets] at hnet)
  new_net p m hp hfun hpm := by
    rw [hnetOf] at hpm
    rw [hmarker p (lt_size_of_netOf? hpm)] at hfun
    exact h.new_net p m hp hfun hpm
  lone p q m hp hfun hfun' hpm hqm := by
    rw [hnetOf] at hpm hqm
    rw [hmarker p (lt_size_of_netOf? hpm)] at hfun
    rw [hmarker q (lt_size_of_netOf? hqm)] at hfun'
    exact h.lone p q m hp hfun hfun' hpm hqm

theorem Apart.putNet (h : Apart c b) (name : Option String) : Apart c (b.putNet name) where
  size_le := by simpa [Build.putNet] using Nat.le_succ_of_le h.size_le
  netOf?_eq := h.netOf?_eq
  power_eq m hm := by
    rw [putNet_net?, if_neg (Nat.ne_of_lt (Nat.lt_of_lt_of_le hm h.size_le))]
    exact h.power_eq m hm
  new_power m net hm hnet := by
    rw [putNet_net?] at hnet
    split at hnet
    · cases hnet
      rfl
    · exact h.new_power m net hm hnet
  new_net := h.new_net
  lone := h.lone

/-- A pin that is on no net is put on one: it belongs to a marker, or the net is new and
empty. -/
theorem Apart.attach (h : Apart c b) {net : NetId} {pin : PinId} (free : b.netOf? pin = none)
    (hapart : b.isMarkerPin pin = true ∨ c.nets.size ≤ net ∧ ∀ q, b.netOf? q ≠ some net) :
    Apart c (b.attach net pin) := by
  -- what a functional pin is on afterwards: it is this pin, or the net is the one before
  have hcases : ∀ p m, (b.attach net pin).netOf? p = some m →
      p = pin ∧ m = net ∨ p ≠ pin ∧ b.netOf? p = some m := by
    intro p m hp
    rw [attach_netOf?] at hp
    split at hp
    · next heq =>
      obtain ⟨x, -, rfl⟩ := Option.map_eq_some_iff.1 hp
      exact .inl ⟨heq.symm, rfl⟩
    · next hne => exact .inr ⟨Ne.symm hne, hp⟩
  constructor
  case size_le => rw [attach_nets_size]; exact h.size_le
  case netOf?_eq =>
    intro p m hp
    have hold := h.netOf?_eq p m hp
    have hne : pin ≠ p := by
      rintro rfl
      rw [free] at hold
      cases hold
    rw [attach_netOf?, if_neg hne, hold]
  case power_eq =>
    intro m hm
    rw [attach_net?, ← h.power_eq m hm]
    split <;> simp [Function.comp_def]
  case new_power =>
    intro m x hm hx
    rw [attach_net?] at hx
    split at hx
    · obtain ⟨y, hy, rfl⟩ := Option.map_eq_some_iff.1 hx
      exact h.new_power m y hm hy
    · exact h.new_power m x hm hx
  case new_net =>
    intro p m hp hfun hpm
    rw [attach_isMarkerPin] at hfun
    rcases hcases p m hpm with ⟨rfl, rfl⟩ | ⟨-, hpm⟩
    · rcases hapart with hmarker | ⟨hnew, -⟩
      · rw [hmarker] at hfun
        cases hfun
      · exact hnew
    · exact h.new_net p m hp hfun hpm
  case lone =>
    intro p q m hp hfun hfun' hpm hqm
    rw [attach_isMarkerPin] at hfun hfun'
    -- the pin itself is functional only if its net was empty
    have hempty : ∀ r, b.isMarkerPin pin = false → b.netOf? r ≠ some net := by
      intro r hr
      rcases hapart with hmarker | ⟨-, hempty⟩
      · rw [hmarker] at hr
        cases hr
      · exact hempty r
    rcases hcases p m hpm with ⟨rfl, rfl⟩ | ⟨-, hpm'⟩
    · rcases hcases q m hqm with ⟨rfl, -⟩ | ⟨-, hqm'⟩
      · rfl
      · exact absurd hqm' (hempty q hfun)
    · rcases hcases q m hqm with ⟨rfl, rfl⟩ | ⟨-, hqm'⟩
      · exact absurd hpm' (hempty p hfun')
      · exact h.lone p q m hp hfun hfun' hpm' hqm'

theorem site?_withMarker (p : Pin) (reason : Option String) (q : PinId) :
    (b.withMarker p reason).site? q =
      if q = b.pins.size then some (b.components.size, b.markerKey) else b.site? q := by
  rw [site?, withMarker_pins, Array.getElem?_push]
  split <;> rfl

theorem MarkerTied.site?_eq {target : PinId} {p : Pin} {reason : Option String} {net : NetId}
    (hp : b.pins[target]? = some p)
    (h : MarkerTied (b.withMarker p reason) target b.pins.size p net b') (q : PinId) :
    b'.site? q = (b.withMarker p reason).site? q := by
  rcases h.eq_attach hp with ⟨-, rfl⟩ | ⟨-, rfl, rfl⟩
  · rw [attach_site?]
  · rw [attach_site?, attach_site?]
    rfl

/-- A pin is marked, and its marker attached. -/
theorem Apart.markNoConnect (h : Apart c b) (hpins : b.PinsOwned) (hnets : b.NetsAgree)
    {target : PinId} {reason : Option String} {marker : ComponentId}
    (ok : markNoConnect target reason b = .ok marker b') : Apart c b' := by
  obtain ⟨p, b₁, net, hp, -, -, rfl, htied⟩ := markNoConnect_ok ok
  have hmarked : Apart c (b.withMarker p reason) := by
    refine h.congr (putComponent_nets ..) (withMarker_netOf? p reason) ?_
    exact (pinsPersist_of_chain hpins (growth_withMarker p reason)).isMarkerPin
  have hmarker := withMarker_isMarkerPin (b := b) p reason
  have hfree : (b.withMarker p reason).netOf? b.pins.size = none := by
    rw [withMarker_netOf?, netOf?_of_size_le (Nat.le_refl _)]
  have hlast : Apart c b₁ := by
    rcases htied.eq_attach hp with ⟨on, rfl⟩ | ⟨free, rfl, rfl⟩
    · exact hmarked.attach hfree (.inl hmarker)
    · -- first the pin gets a new net, then the marker joins it
      have hne : target ≠ b.pins.size := fun heq => by simp [heq] at hp
      have hone : Apart c (((b.withMarker p reason).putNet none).attach b.nets.size target) := by
        refine (hmarked.putNet none).attach ?_ (.inr ⟨h.size_le, fun q hq => ?_⟩)
        · exact (withMarker_netOf? p reason target).trans ((netOf?_of_pin hp).trans free)
        · have hold := (withMarker_netOf? p reason q).symm.trans hq
          obtain ⟨x, hx, -⟩ := (hnets.netOf_iff q _).1 hold
          exact Nat.lt_irrefl _ (lt_size_of_net? hx)
      refine hone.attach ?_ (.inl ?_)
      · rw [attach_netOf?, if_neg hne]
        exact hfree
      · rw [attach_isMarkerPin]
        exact hmarker
  exact hlast.congr rfl (setNoConnect_netOf? _ target) fun q _ => setNoConnect_isMarkerPin ..

end Build

/-! ### Playing the rest -/

namespace CircuitDef

open Build

variable {a b b' c : Build α} {numbering : PinNumbering} {refs composables : Names}
  {more : List (ComponentId × String)}

/-- The nets are kept, and the pins of components that have been added are those at some
places. -/
structure Kept (c b : Build α) (more : List (ComponentId × String)) : Prop where
  /-- Pins, nets, ports and markers are added and nothing else. -/
  connects : Connects c b
  /-- What is added is kept apart. -/
  apart : Apart c b
  /-- The pins of components are those there were and those that are added. -/
  sites : ∀ s, (∃ p, b.site? p = some s ∧ b.isMarker s.1 = false) ↔
    (∃ p, c.site? p = some s ∧ c.isMarker s.1 = false) ∨ s ∈ more

theorem Kept.refl (c : Build α) : Kept c c [] := ⟨.refl c, .refl c, by simp⟩

theorem lt_size_of_site?_fst (hpins : b.PinsOwned) {p : PinId} {s : ComponentId × String}
    (hp : b.site? p = some s) : s.1 < b.components.size :=
  lt_size_of_mem_tableOf ((hpins.key_iff s.1 s.2 p).2 hp)

/-- Only pins of markers are added. -/
theorem Kept.connect (h : Kept c b more) (hpins : b.PinsOwned) (hb : Connects b b')
    (hapart : Apart c b')
    (hnew : ∀ p s, b'.site? p = some s → b.site? p = some s ∨ b'.isMarker s.1 = true) :
    Kept c b' more where
  connects := h.connects.trans hb
  apart := hapart
  sites s := by
    rw [← h.sites]
    constructor
    · rintro ⟨p, hp, hmarker⟩
      rcases hnew p s hp with hp | hmarker'
      · exact ⟨p, hp, by rwa [← hb.isMarker_eq (lt_size_of_site?_fst hpins hp)]⟩
      · rw [hmarker] at hmarker'
        cases hmarker'
    · rintro ⟨p, hp, hmarker⟩
      exact ⟨p, site?_of_chain hb.chain hp,
        by rwa [hb.isMarker_eq (lt_size_of_site?_fst hpins hp)]⟩

/-- The pin of a declared component is asked for. -/
theorem Kept.asked (h : Kept c b more) (hpins : b.PinsOwned) {s : ComponentId × String}
    {p : PinId} (hs : b.isMarker s.1 = false) (asked : b.Asked s p b') :
    Kept c b' (more ++ [s]) where
  connects := h.connects.trans asked.connects
  apart := h.apart.congr asked.nets_eq asked.sameNets.netOf?_eq
    (pinsPersist_of_chain hpins asked.connects.chain).isMarkerPin
  sites t := by
    have hmarker : ∀ t : ComponentId × String, b'.isMarker t.1 = b.isMarker t.1 := by
      intro t
      cases asked with
      | found site => rfl
      | made known new => exact putPin_isMarker ..
    have hsite : (∃ q, (q = p ∧ t = s) ∧ b.isMarker t.1 = false) ↔ t = s := by
      refine ⟨fun ⟨_, ⟨_, heq⟩, _⟩ => heq, fun heq => ⟨p, ⟨rfl, heq⟩, heq ▸ hs⟩⟩
    simp only [asked.site?_eq_some, hmarker, or_and_right, exists_or, h.sites, hsite,
      List.mem_append, List.mem_singleton, or_assoc]

/-! ### Ports -/

theorem Declared.isMarker_siteOf? (ha : Declared refs a) (hab : Connects a b) {text : String}
    {s : ComponentId × String} (hs : siteOf? numbering refs a text = some s) :
    b.isMarker s.1 = false := by
  obtain ⟨r, i, c, -, -, hc, rfl⟩ := siteOf?_eq_some.1 hs
  rw [hab.isMarker_eq (Array.getElem?_eq_some_iff.1 hc).1]
  simp [isMarker, hc, ha.unmarked c (Array.mem_of_getElem? hc)]

/-- Resolving a reference adds the pin that it addresses. -/
theorem Kept.resolve (h : Kept c b more) (ha : Declared refs a) (hac : Connects a c)
    {text : String} {p : PinId} (ok : resolvePin numbering refs text b = .ok p b') :
    ∃ s, siteOf? numbering refs a text = some s ∧ Kept c b' (more ++ [s]) := by
  have hab := hac.trans h.connects
  obtain ⟨s, hs, hasked⟩ := resolvePin_ok (ha.owned_of hab) ok
  rw [siteOf?_eq ha.refers hab] at hs
  exact ⟨s, hs, h.asked (ha.owned_of hab) (ha.isMarker_siteOf? hab hs) hasked⟩

/-- A pin that is on no net gets a net of its own. -/
theorem Kept.alone (h : Kept c b more) (hpins : b.PinsOwned) (hnets : b.NetsAgree) {p : PinId}
    (free : b.netOf? p = none) {name : Option String}
    (tied : Tied (b.putNet name) b.nets.size (.pin p) b') : Kept c b' more := by
  have hconnects := (connects_putNet (b := b) name).trans tied.connects
  obtain ⟨rfl, -⟩ := attach_of_tied tied free
  refine h.connect hpins hconnects ?_ fun q s hq => .inl ?_
  · refine (h.apart.putNet name).attach free (.inr ⟨h.apart.size_le, fun q hq => ?_⟩)
    obtain ⟨x, hx, -⟩ := (hnets.netOf_iff q _).1 hq
    exact Nat.lt_irrefl _ (lt_size_of_net? hx)
  · rwa [attach_site?] at hq

/-- A port is exposed on the net of its pin, or on a new net when that is on none. -/
theorem exposePorts_cons {id : ComposableId} {port text : String}
    {rest : List (String × String)} {u : Unit}
    (h : exposePorts numbering refs id ((port, text) :: rest) b = .ok u b') :
    ∃ p b₁ net b₂ b₃, resolvePin numbering refs text b = .ok p b₁ ∧
      (b₂ = b₁ ∨ b₁.netOf? p = none ∧ net = b₁.nets.size ∧
        Tied (b₁.putNet (some port)) net (.pin p) b₂) ∧
      expose id port net b₂ = .ok ⟨⟩ b₃ ∧ exposePorts numbering refs id rest b₃ = .ok u b' := by
  rw [exposePorts] at h
  obtain ⟨p, b₁, hresolve, h⟩ := ReplayM.bind_ok_iff.1 h
  rw [ReplayM.get_bind_apply] at h
  cases hnet : b₁.netOf? p with
  | some net =>
    simp only [hnet, ReplayM.bind_ok_iff, ReplayM.ofBuild_ok_iff, ReplayM.pure_apply] at h
    obtain ⟨_, _, ⟨⟩, ⟨⟩, b₃, hexpose, hrest⟩ := h
    exact ⟨p, b₁, net, b₁, b₃, hresolve, .inl rfl, hexpose, hrest⟩
  | none =>
    simp only [hnet, ReplayM.bind_ok_iff, ReplayM.ofBuild_ok_iff, ReplayM.pure_apply,
      addNet_apply, tie_ok_iff] at h
    obtain ⟨_, _, ⟨⟩, _, b₂, htied, _, _, ⟨⟩, _, b₃, hexpose, hrest⟩ := h
    exact ⟨p, b₁, _, b₂, b₃, hresolve, .inr ⟨hnet, rfl, htied⟩, hexpose, hrest⟩

/-- A port is exposed on the net of its pin. -/
theorem Kept.exposed (h : Kept c b more) (ha : Declared refs a) (hac : Connects a c)
    {id : ComposableId} {port text : String} {p : PinId} {net : NetId} {b₁ b₂ : Build α}
    (hresolve : resolvePin numbering refs text b = .ok p b₁)
    (hnet : b₂ = b₁ ∨ b₁.netOf? p = none ∧ net = b₁.nets.size ∧
      Tied (b₁.putNet (some port)) net (.pin p) b₂)
    (hexpose : expose id port net b₂ = .ok ⟨⟩ b') :
    ∃ s, siteOf? numbering refs a text = some s ∧ Kept c b₁ (more ++ [s]) ∧
      Kept c b' (more ++ [s]) := by
  obtain ⟨s, hs, h₁⟩ := h.resolve ha hac hresolve
  have hab₁ := hac.trans h₁.connects
  have h₂ : Kept c b₂ (more ++ [s]) := by
    rcases hnet with rfl | ⟨free, rfl, tied⟩
    · exact h₁
    · exact h₁.alone (ha.owned_of hab₁) (ha.agree_of hab₁) free tied
  obtain ⟨⟨n, live⟩, -, rfl⟩ := expose_ok hexpose
  exact ⟨s, hs, h₁, h₂.connect (ha.owned_of (hac.trans h₂.connects)) (connects_setPort live)
    (h₂.apart.congr rfl (fun _ => rfl) fun _ _ => rfl) fun _ _ hq => .inl hq⟩

theorem exposePorts_kept (ha : Declared refs a) (hac : Connects a c) {id : ComposableId}
    {ports : List (String × String)} {u : Unit} (h : Kept c b more)
    (ok : exposePorts numbering refs id ports b = .ok u b') :
    Kept c b' (more ++ (ports.map Prod.snd).filterMap (siteOf? numbering refs a)) := by
  induction ports generalizing b more with
  | nil =>
    cases ok
    simpa using h
  | cons e rest ih =>
    obtain ⟨port, text⟩ := e
    obtain ⟨p, b₁, net, b₂, b₃, hresolve, hnet, hexpose, hrest⟩ := exposePorts_cons ok
    obtain ⟨s, hs, -, h₃⟩ := h.exposed ha hac hresolve hnet hexpose
    simpa [hs] using ih h₃ hrest

/-- All ports are exposed. -/
theorem exposeAll_kept (ha : Declared refs a) (hac : Connects a c)
    {ds : List (ComposableDef α)} {u : Unit}
    (hfound : ∀ d ∈ ds, (composables.lookup d.name).isSome = true) (h : Kept c b more)
    (ok : exposeAll numbering refs composables ds b = .ok u b') :
    Kept c b' (more ++ (ds.flatMap fun d => d.ports.entries.map Prod.snd).filterMap
      (siteOf? numbering refs a)) := by
  induction ds generalizing b more with
  | nil =>
    cases ok
    simpa using h
  | cons d ds ih =>
    obtain ⟨id, hid⟩ := Option.isSome_iff_exists.1 (hfound d List.mem_cons_self)
    simp only [exposeAll, hid, ReplayM.bind_ok_iff] at ok
    obtain ⟨_, b₁, hports, hrest⟩ := ok
    have h₁ := exposePorts_kept ha hac h hports
    simpa using ih (fun e he => hfound e (List.mem_cons_of_mem d he)) h₁ hrest

/-! ### Unconnected pins -/

theorem Kept.mark (h : Kept c b more) (hpins : b.PinsOwned) (hnets : b.NetsAgree)
    {target : PinId} {reason : Option String} {marker : ComponentId}
    (ok : markNoConnect target reason b = .ok marker b') : Kept c b' more := by
  refine h.connect hpins (connects_markNoConnect ok) (h.apart.markNoConnect hpins hnets ok) ?_
  intro q s hq
  obtain ⟨p, b₁, net, hp, -, -, rfl, htied⟩ := markNoConnect_ok ok
  rw [setNoConnect_site?] at hq
  by_cases hlast : q = b.pins.size
  · -- the new pin belongs to the marker
    have hmarker := (htied.ends hp).2.2
    rw [isMarkerPin_eq, ← hlast, hq] at hmarker
    exact .inr hmarker
  · rw [htied.site?_eq hp, site?_withMarker, if_neg hlast] at hq
    exact .inl hq

/-- All unconnected pins are marked. -/
theorem markAll_kept (ha : Declared refs a) (hac : Connects a c) {ds : List NoConnectDef}
    {u : Unit} (h : Kept c b more) (ok : markAll numbering refs ds b = .ok u b') :
    Kept c b' (more ++ (ds.map (·.pin)).filterMap (siteOf? numbering refs a)) := by
  induction ds generalizing b more with
  | nil =>
    cases ok
    simpa using h
  | cons d ds ih =>
    simp only [markAll, ReplayM.bind_ok_iff, ReplayM.ofBuild_ok_iff] at ok
    obtain ⟨p, b₁, hresolve, marker, b₂, hmark, hrest⟩ := ok
    obtain ⟨s, hs, h₁⟩ := h.resolve ha hac hresolve
    have hab₁ := hac.trans h₁.connects
    have h₂ := h₁.mark (ha.owned_of hab₁) (ha.agree_of hab₁) hmark
    simpa [hs] using ih h₂ hrest

end CircuitDef

end Schematic
