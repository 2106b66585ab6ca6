import Schematic.Proofs.Circuit.WellFormed

/-!
# Unconnected pins stay unconnected

The mark of an unconnected pin is written in three places: the pin has a flag,
its marker is a component, and the two share a net.  No operation takes the flag
back or turns a pin of a marker into a functional one; no net gets a second
functional pin beside a marker, from whichever side it is tied; and a pin that is
marked refuses every further tie.

## Main definitions

* `Build.PinsPersist` — what later changes leave of the pins there are.
* `Build.Guarded` — no net has a marker and two functional pins, and a marked pin
  is on a net with a marker.
* `Build.Isolated` — a marked pin is alone with markers.
* `Build.TiesOf`, `Build.RefusedAsMarked` — the operations that would tie a pin,
  and their refusal.
* `Build.MarksKept` — what further operations leave of the marks.

## Main statements

* `Build.pinsPersist_run`, `Build.guarded_run` — these hold along every run.
* `Build.refused_of_tiesOf` — a marked pin refuses every tie.
* `Build.marksKept_run` — all of this, after any further operations.
-/

namespace Schematic

open Relation (ReflTransGen)

namespace Build

variable {α : Type} {b b' b'' : Build α}

/-! ### Pins persist -/

/-- The pins there are stay, and stay functional or a marker's, and a marked one stays
marked. -/
structure PinsPersist (b b' : Build α) : Prop where
  /-- Pins are never taken away. -/
  size_le : b.pins.size ≤ b'.pins.size
  /-- A pin stays functional or a marker's. -/
  isMarkerPin : ∀ p, p < b.pins.size → b'.isMarkerPin p = b.isMarkerPin p
  /-- A mark is never taken back. -/
  isNoConnect : ∀ p, b.isNoConnect p = true → b'.isNoConnect p = true

theorem PinsPersist.refl (b : Build α) : PinsPersist b b :=
  ⟨Nat.le_refl _, fun _ _ => rfl, fun _ h => h⟩

theorem PinsPersist.trans (h : PinsPersist b b') (h' : PinsPersist b' b'') : PinsPersist b b'' where
  size_le := Nat.le_trans h.size_le h'.size_le
  isMarkerPin p hp :=
    (h'.isMarkerPin p (Nat.lt_of_lt_of_le hp h.size_le)).trans (h.isMarkerPin p hp)
  isNoConnect p hp := h'.isNoConnect p (h.isNoConnect p hp)

/-- A change that leaves the pins and the markers alone. -/
theorem PinsPersist.of_eq (hpins : b'.pins = b.pins) (hmarker : ∀ i, b'.isMarker i = b.isMarker i) :
    PinsPersist b b' where
  size_le := Nat.le_of_eq (by rw [hpins])
  isMarkerPin p _ := by simp only [isMarkerPin_eq, site?, hpins, hmarker]
  isNoConnect p hp := by rwa [Build.isNoConnect, hpins]

/-- Making a component a marker concerns no pin, since the component has none. -/
theorem isMarkerPin_setMarker (hpins : b.PinsOwned) {id : ComponentId} (bare : b.tableOf id = ∅)
    (p : PinId) : (b.setMarker id).isMarkerPin p = b.isMarkerPin p := by
  rw [isMarkerPin_eq, isMarkerPin_eq]
  change (b.site? p).any _ = _
  cases hs : b.site? p with
  | none => rfl
  | some s =>
    have hne : id ≠ s.1 := by
      rintro rfl
      have hmem := (hpins.key_iff s.1 s.2 p).2 hs
      rw [bare] at hmem
      cases hmem
    rw [Option.any_some, Option.any_some, setMarker_isMarker, if_neg hne]

/-- Every elementary change leaves the pins there are. -/
theorem pinsPersist_of_growth (hpins : b.PinsOwned) (g : Growth b b') : PinsPersist b b' := by
  cases g with
  | component known => exact .of_eq (putComponent_pins ..) fun i => putComponent_isMarker ..
  | marker bare =>
    exact ⟨Nat.le_refl _, fun p _ => isMarkerPin_setMarker hpins bare p, fun _ h => h⟩
  | composable known => exact .of_eq (putComposable_pins ..) fun i => by simp [isMarker]
  | net => exact .of_eq rfl fun _ => rfl
  | power => exact .of_eq rfl fun _ => rfl
  | numbering => exact .of_eq rfl fun _ => rfl
  | @pin component key known new =>
    refine ⟨by simp, fun p hp => ?_, fun p hp => by rwa [putPin_isNoConnect]⟩
    rw [isMarkerPin_eq, isMarkerPin_eq, putPin_site?, if_neg (Nat.ne_of_lt hp)]
    simp only [putPin_isMarker]
  | attach live known free room =>
    exact ⟨by simp, fun p _ => attach_isMarkerPin .., fun p hp => by rwa [attach_isNoConnect]⟩
  | absorb ne live other room =>
    exact ⟨by simp, fun p _ => absorb_isMarkerPin .., fun p hp => by rwa [absorb_isNoConnect]⟩
  | @noConnect pin marker net on beside isMarker =>
    refine ⟨by simp [setNoConnect], fun p _ => setNoConnect_isMarkerPin .., fun p hp => ?_⟩
    rw [setNoConnect_isNoConnect]
    split
    · next heq =>
      subst heq
      simp [lt_size_of_netOf? on]
    · exact hp
  | port live => exact .of_eq rfl fun _ => rfl
  | interface => exact .of_eq rfl fun _ => rfl

/-- Elementary changes, one after another, leave the pins there are. -/
theorem pinsPersist_of_chain (hpins : b.PinsOwned) (hchain : ReflTransGen Growth b b') :
    PinsPersist b b' := by
  -- that the tables are right has to be known on the way: a component without pins in its
  -- table has no pins at all, so that no pin changes its nature when it becomes a marker
  have h : b'.PinsOwned ∧ PinsPersist b b' := by
    refine growth_chain (P := fun c => c.PinsOwned ∧ PinsPersist b c) ?_ hchain ⟨hpins, .refl b⟩
    rintro c c' g ⟨howned, hpersist⟩
    exact ⟨howned.grow g, hpersist.trans (pinsPersist_of_growth howned g)⟩
  exact h.2

/-- Operations that do not start again leave the pins there are. -/
theorem pinsPersist_run (hpins : b.PinsOwned) {more : List (Operation α)}
    (hmore : ∀ op ∈ more, op.restarts = false) : PinsPersist b (b.run more) :=
  pinsPersist_of_chain hpins (growth_run hmore)

/-! ### Guarded nets -/

/-- No live net has a marker and two functional pins, and a marked pin is on a net with a
marker. -/
structure Guarded (b : Build α) : Prop where
  /-- The pins of a live net may be on one net. -/
  compatible : ∀ n net, b.net? n = some net → b.compatible net.pins = true
  /-- A marked pin shares its net with a marker. -/
  marked : ∀ p, b.isNoConnect p = true →
    ∃ n m, b.netOf? p = some n ∧ b.netOf? m = some n ∧ b.isMarkerPin m = true

theorem compatible_congr {pins : List PinId}
    (h : ∀ p ∈ pins, b'.isMarkerPin p = b.isMarkerPin p) :
    b'.compatible pins = b.compatible pins := by
  have hany : pins.any b'.isMarkerPin = pins.any b.isMarkerPin := by
    rw [Bool.eq_iff_iff, List.any_eq_true, List.any_eq_true]
    exact exists_congr fun p => and_congr_right fun hp => by rw [h p hp]
  have hcount : pins.countP (fun p => !b'.isMarkerPin p) =
      pins.countP fun p => !b.isMarkerPin p := List.countP_congr fun p hp => by rw [h p hp]
  rw [Build.compatible, Build.compatible, hany, hcount]

/-- A change that leaves the nets alone, and which pins are marked. -/
theorem Guarded.congr (h : b.Guarded) (hnets : b.NetsAgree) (hpersist : PinsPersist b b')
    (same : SameNets b b') (hmark : ∀ p, b'.isNoConnect p = b.isNoConnect p) :
    b'.Guarded where
  compatible n net hn := by
    obtain ⟨old, hold, hpins⟩ := same.exists_net hn
    rw [← hpins, compatible_congr fun p hp => hpersist.isMarkerPin p ?_]
    · exact h.compatible n old hold
    · exact lt_size_of_netOf? (hnets.netOf?_of_mem hold hp)
  marked p hp := by
    rw [hmark] at hp
    obtain ⟨n, m, hpn, hmn, hm⟩ := h.marked p hp
    refine ⟨n, m, by rw [same.netOf?_eq, hpn], by rw [same.netOf?_eq, hmn], ?_⟩
    rw [hpersist.isMarkerPin m (lt_size_of_netOf? hmn), hm]

/-- A pin is attached to a net that has room for it, and marked pins have nets already. -/
theorem Guarded.attach (h : b.Guarded) {net : NetId} {pin : PinId} {n : Net} {p : Pin}
    (live : b.net? net = some n) (known : b.pins[pin]? = some p) (free : p.net = none)
    (room : b.compatible (n.pins ++ [pin]) = true) : (b.attach net pin).Guarded where
  compatible k x hk := by
    rw [compatible_congr fun q _ => attach_isMarkerPin ..]
    rw [attach_net?] at hk
    split at hk
    · next heq =>
      subst heq
      rw [live] at hk
      cases hk
      exact room
    · exact h.compatible k x hk
  marked q hq := by
    rw [attach_isNoConnect] at hq
    obtain ⟨k, m, hqk, hmk, hm⟩ := h.marked q hq
    -- the attached pin had no net, so that it is neither the marked pin nor its marker
    have hkeep : ∀ x, b.netOf? x = some k → (b.attach net pin).netOf? x = some k := by
      intro x hx
      have hne : pin ≠ x := by
        rintro rfl
        rw [netOf?_of_pin known, free] at hx
        cases hx
      rw [attach_netOf?, if_neg hne, hx]
    exact ⟨k, m, hkeep q hqk, hkeep m hmk, by rwa [attach_isMarkerPin]⟩

/-- A net is moved into one that has room for its pins, and a marked pin moves together
with its marker. -/
theorem Guarded.absorb (h : b.Guarded) (hnets : b.NetsAgree) {net source : NetId} {n r : Net}
    (ne : net ≠ source) (live : b.net? net = some n) (other : b.net? source = some r)
    (room : b.compatible (n.pins ++ r.pins) = true) : (b.absorb net source r).Guarded where
  compatible k x hk := by
    rw [compatible_congr fun q _ => absorb_isMarkerPin ..]
    rw [absorb_net? b ne] at hk
    split at hk
    · cases hk
    split at hk
    · next heq =>
      subst heq
      rw [live] at hk
      cases hk
      exact room
    · exact h.compatible k x hk
  marked q hq := by
    rw [absorb_isNoConnect] at hq
    obtain ⟨k, m, hqk, hmk, hm⟩ := h.marked q hq
    refine ⟨moved net source k, m, ?_, ?_, by rwa [absorb_isMarkerPin]⟩
    · rw [hnets.absorb_netOf? other, hqk, Option.map_some]
    · rw [hnets.absorb_netOf? other, hmk, Option.map_some]

/-- A pin is marked when it shares its net with a marker. -/
theorem Guarded.setNoConnect (h : b.Guarded) {pin marker : PinId} {net : NetId}
    (on : b.netOf? pin = some net) (beside : b.netOf? marker = some net)
    (isMarker : b.isMarkerPin marker = true) : (b.setNoConnect pin).Guarded where
  compatible k x hk := by
    rw [compatible_congr fun q _ => setNoConnect_isMarkerPin ..]
    exact h.compatible k x hk
  marked q hq := by
    simp only [setNoConnect_netOf?, setNoConnect_isMarkerPin]
    rw [setNoConnect_isNoConnect] at hq
    split at hq
    · next heq => exact ⟨net, marker, heq ▸ on, beside, isMarker⟩
    · exact h.marked q hq

/-- Every elementary change keeps the nets guarded. -/
theorem Guarded.grow (h : b.Guarded) (hnets : b.NetsAgree) (hpins : b.PinsOwned)
    (g : Growth b b') : b'.Guarded := by
  have hpersist := pinsPersist_of_growth hpins g
  cases g with
  | component known =>
    exact h.congr hnets hpersist (sameNets_putComponent _) fun p => by simp [isNoConnect]
  | marker bare => exact h.congr hnets hpersist (.of_eq rfl rfl) fun _ => rfl
  | composable known =>
    exact h.congr hnets hpersist (sameNets_putComposable ..) fun p => by simp [isNoConnect]
  | net =>
    refine { h with compatible := fun n net hn => ?_ }
    rw [putNet_net?] at hn
    split at hn
    · cases hn
      rfl
    · exact h.compatible n net hn
  | power => exact h.congr hnets hpersist (sameNets_power ..) fun _ => rfl
  | numbering => exact h.congr hnets hpersist (.of_eq rfl rfl) fun _ => rfl
  | pin known new =>
    exact h.congr hnets hpersist (sameNets_putPin ..) fun p => putPin_isNoConnect ..
  | attach live known free room => exact h.attach live known free room
  | absorb ne live other room => exact h.absorb hnets ne live other room
  | noConnect on beside isMarker => exact h.setNoConnect on beside isMarker
  | port live => exact h.congr hnets hpersist (.of_eq rfl rfl) fun _ => rfl
  | interface => exact h.congr hnets hpersist (.of_eq rfl rfl) fun _ => rfl

theorem guarded_cleared (b : Build α) : b.cleared.Guarded where
  compatible n net hn := by cases hn
  marked p hp := by cases hp

/-- Nets are guarded after every run. -/
theorem guarded_run (name : String) (ops : List (Operation α)) :
    ((new name).run ops).Guarded := by
  have h : ((new name).run ops).NetsAgree ∧ ((new name).run ops).PinsOwned ∧
      ((new name).run ops).Guarded := by
    refine run_induction (P := fun b => b.NetsAgree ∧ b.PinsOwned ∧ b.Guarded)
      (fun b => ⟨netsAgree_cleared b, pinsOwned_cleared b, guarded_cleared b⟩) ?_ name ops
    rintro b b' g ⟨hnets, hpins, h⟩
    exact ⟨hnets.grow g, hpins.grow g, h.grow hnets hpins g⟩
  exact h.2.2

/-! ### Marked pins are alone with markers -/

/-- A marked functional pin is on a live net that has a marker and no other functional
pin. -/
structure Isolated (b : Build α) (p : PinId) : Prop where
  /-- The pin is functional. -/
  functional : b.isMarkerPin p = false
  /-- Its net has a marker, and no functional pin but this one. -/
  net : ∃ n net, b.netOf? p = some n ∧ b.net? n = some net ∧ p ∈ net.pins ∧
    (∃ m ∈ net.pins, b.isMarkerPin m = true) ∧ ∀ q ∈ net.pins, b.isMarkerPin q = false → q = p

/-- Where pins may be on one net with a marker, two functional ones are the same. -/
theorem eq_of_compatible {pins : List PinId} (h : b.compatible pins = true) {m p q : PinId}
    (hm : m ∈ pins) (hmarker : b.isMarkerPin m = true) (hp : p ∈ pins)
    (hpf : b.isMarkerPin p = false) (hq : q ∈ pins) (hqf : b.isMarkerPin q = false) : q = p := by
  have hle := compatible_iff.1 h ⟨m, hm, hmarker⟩
  -- the functional pins are a list of at most one
  rw [List.countP_eq_length_filter] at hle
  have hmem : ∀ x ∈ pins, b.isMarkerPin x = false →
      x ∈ pins.filter fun p => !b.isMarkerPin p := fun x hx hxf => by simp [hx, hxf]
  have hp := hmem p hp hpf
  have hq := hmem q hq hqf
  cases hfilter : pins.filter fun p => !b.isMarkerPin p with
  | nil =>
    rw [hfilter] at hp
    cases hp
  | cons x xs =>
    rw [hfilter] at hle hp hq
    have hxs : xs = [] := List.length_eq_zero_iff.1 (by simpa using hle)
    rw [hxs, List.mem_singleton] at hp hq
    rw [hp, hq]

theorem Guarded.isolated (h : b.Guarded) (hnets : b.NetsAgree) {p : PinId}
    (hmark : b.isNoConnect p = true) (hfunctional : b.isMarkerPin p = false) : b.Isolated p := by
  obtain ⟨n, m, hpn, hmn, hm⟩ := h.marked p hmark
  obtain ⟨net, hlive, hp⟩ := (hnets.netOf_iff p n).1 hpn
  have hmem := (hnets.mem_iff hlive m).2 hmn
  refine ⟨hfunctional, n, net, hpn, hlive, hp, ⟨m, hmem, hm⟩, fun q hq hqf => ?_⟩
  exact eq_of_compatible (h.compatible n net hlive) hmem hm hp hfunctional hq hqf

/-! ### Marked pins refuse ties -/

/-- The operations that tie a pin to another live net or to another pin, by number or by
key and from either side, or that mark it. -/
inductive TiesOf (b : Build α) (p : PinId) : Operation α → Prop
  /-- The pin is tied to a net. -/
  | tie {n : NetId} {net : Net} (live : b.net? n = some net) (other : b.netOf? p ≠ some n) :
      TiesOf b p (.tie n (.pin p))
  /-- The pin is tied by key to a net. -/
  | connect {component : ComponentId} {key : String} {n : NetId} {net : Net}
      (keyed : b.keyed? component key = some p) (live : b.net? n = some net)
      (other : b.netOf? p ≠ some n) : TiesOf b p (.connect component key (.net n))
  /-- The pin is tied to a pin. -/
  | first {q : PinId} (known : q < b.pins.size) : TiesOf b p (.tiePins p q)
  /-- A pin is tied to the pin. -/
  | second {q : PinId} (known : q < b.pins.size) : TiesOf b p (.tiePins q p)
  /-- The pin is tied by key to a pin. -/
  | connectFirst {component : ComponentId} {key : String} {q : PinId}
      (keyed : b.keyed? component key = some p) (known : q < b.pins.size) :
      TiesOf b p (.connect component key (.pin q))
  /-- A pin is tied by key to the pin. -/
  | connectSecond {component : ComponentId} {key : String}
      (known : component < b.components.size) : TiesOf b p (.connect component key (.pin p))
  /-- The pin is marked. -/
  | mark {reason : Option String} : TiesOf b p (.markNoConnect p reason)

/-- An operation is refused since a pin, which the refusal names, is marked. -/
def RefusedAsMarked (b : Build α) (op : Operation α) : Prop :=
  ∃ x b', op.perform b = .error (.alreadyNoConnect (b'.pinLabel x)) b' ∧ x ∈ b'.pins ∧
    x.noConnect = true

theorem tiePins_refused {first second : PinId} {p q : Pin} (hp : b.pins[first]? = some p)
    (hq : b.pins[second]? = some q) (hmark : p.noConnect = true ∨ q.noConnect = true) :
    ∃ x, tiePins first second b = .error (.alreadyNoConnect (b.pinLabel x)) b ∧ x ∈ b.pins ∧
      x.noConnect = true := by
  have herror : ∀ {x : Pin} {f : Unit → BuildM α NetId}, x.noConnect = true →
      (checkConnectable x >>= f) b = .error (.alreadyNoConnect (b.pinLabel x)) b := fun hx =>
    bind_error_iff.2 (.inl (checkConnectable_error_iff.2 ⟨hx, rfl, rfl⟩))
  rw [tiePins, bind_of_ok (knownPin_ok_iff.2 ⟨hp, rfl⟩), bind_of_ok (knownPin_ok_iff.2 ⟨hq, rfl⟩)]
  cases hpmark : p.noConnect with
  | true => exact ⟨p, herror hpmark, Array.mem_of_getElem? hp, hpmark⟩
  | false =>
    rw [bind_of_ok ((checkConnectable_ok_iff (u := ⟨⟩)).2 ⟨hpmark, rfl⟩)]
    have hqmark := hmark.resolve_left (by rw [hpmark]; decide)
    exact ⟨q, herror hqmark, Array.mem_of_getElem? hq, hqmark⟩

theorem exists_pin_of_isNoConnect {p : PinId} (h : b.isNoConnect p = true) :
    ∃ x, b.pins[p]? = some x ∧ x.noConnect = true := by
  rw [isNoConnect, Option.any_eq_true] at h
  exact h

/-- Asking for the pin that exists already changes nothing. -/
theorem pin_of_keyed? {component : ComponentId} {key : String} {p : PinId} {x : Pin}
    (h : b.keyed? component key = some p) (hp : b.pins[p]? = some x) :
    pin component key b = .ok p b := by
  obtain ⟨b', hpin⟩ := keyed?_eq_some.1 h
  obtain ⟨c, -, ⟨-, rfl⟩ | ⟨-, rfl, -⟩⟩ := pin_ok_iff.1 hpin
  · exact hpin
  · simp at hp

theorem tie_refused {net : NetId} {n : Net} {pin : PinId} {p : Pin} (hn : b.net? net = some n)
    (hp : b.pins[pin]? = some p) (other : b.netOf? pin ≠ some net) (hmark : p.noConnect = true) :
    tie net (.pin pin) b = .error (.alreadyNoConnect (b.pinLabel p)) b := by
  rw [netOf?_of_pin hp] at other
  rw [tie_pin hn hp, if_neg other, if_pos hmark]

/-- Every pin that a component is asked for exists afterwards, and so does every pin there
was. -/
theorem pin_exists (hpins : b.PinsOwned) {component : ComponentId} (key : String)
    (known : component < b.components.size) {p : PinId} {x : Pin} (hp : b.pins[p]? = some x) :
    ∃ q b', pin component key b = .ok q b' ∧ q < b'.pins.size ∧ b'.pins[p]? = some x := by
  obtain ⟨c, hc⟩ : ∃ c, b.components[component]? = some c :=
    ⟨_, Array.getElem?_eq_getElem known⟩
  cases hfind : c.pins.find? (b.canonicalKey c key) with
  | some q =>
    refine ⟨q, b, pin_ok_iff.2 ⟨c, hc, .inl ⟨hfind, rfl⟩⟩, ?_, hp⟩
    have hmem : (b.canonicalKey c key, q) ∈ (b.tableOf component).keys.entries := by
      rw [tableOf, hc]
      exact Table.mem_of_find?_eq_some hfind
    exact lt_size_of_site? ((hpins.key_iff component _ q).1 hmem)
  | none =>
    refine ⟨b.pins.size, _, pin_ok_iff.2 ⟨c, hc, .inr ⟨hfind, rfl, rfl⟩⟩, by simp, ?_⟩
    have hlt : p < b.pins.size := (Array.getElem?_eq_some_iff.1 hp).1
    rw [putPin, Array.getElem?_push, if_neg (Nat.ne_of_lt hlt)]
    exact hp

/-- A marked pin refuses every tie, and a second mark. -/
theorem refused_of_tiesOf (hpins : b.PinsOwned) {p : PinId} {op : Operation α}
    (hmark : b.isNoConnect p = true) (t : b.TiesOf p op) : b.RefusedAsMarked op := by
  obtain ⟨x, hx, hxmark⟩ := exists_pin_of_isNoConnect hmark
  have hmem := Array.mem_of_getElem? hx
  have hget : ∀ {c : Build α} {q : PinId}, q < c.pins.size → ∃ y, c.pins[q]? = some y :=
    fun hq => ⟨_, Array.getElem?_eq_getElem hq⟩
  cases t with
  | tie live other =>
    exact ⟨x, b, map_error_iff.2 (tie_refused live hx other hxmark), hmem, hxmark⟩
  | connect keyed live other =>
    refine ⟨x, b, map_error_iff.2 ?_, hmem, hxmark⟩
    rw [Build.connect, bind_of_ok (pin_of_keyed? keyed hx)]
    exact bind_error_iff.2 (.inl (tie_refused live hx other hxmark))
  | first known =>
    obtain ⟨y, hy⟩ := hget known
    obtain ⟨z, herror, hz⟩ := tiePins_refused hx hy (.inl hxmark)
    exact ⟨z, b, map_error_iff.2 herror, hz⟩
  | second known =>
    obtain ⟨y, hy⟩ := hget known
    obtain ⟨z, herror, hz⟩ := tiePins_refused hy hx (.inr hxmark)
    exact ⟨z, b, map_error_iff.2 herror, hz⟩
  | connectFirst keyed known =>
    obtain ⟨y, hy⟩ := hget known
    obtain ⟨z, herror, hz⟩ := tiePins_refused hx hy (.inl hxmark)
    refine ⟨z, b, map_error_iff.2 ?_, hz⟩
    rw [Build.connect, bind_of_ok (pin_of_keyed? keyed hx)]
    exact herror
  | @connectSecond component key known =>
    -- the pin that is asked for may be new, and then it stays although the tie is refused
    obtain ⟨q, b', hpin, hq, hx'⟩ := pin_exists hpins key known hx
    obtain ⟨y, hy⟩ := hget hq
    obtain ⟨z, herror, hz⟩ := tiePins_refused hy hx' (.inr hxmark)
    refine ⟨z, b', map_error_iff.2 ?_, hz⟩
    rw [Build.connect, bind_of_ok hpin]
    exact herror
  | mark =>
    refine ⟨x, b, map_error_iff.2 ?_, hmem, hxmark⟩
    rw [markNoConnect, bind_of_ok (knownPin_ok_iff.2 ⟨hx, rfl⟩)]
    exact bind_error_iff.2 (.inl (checkConnectable_error_iff.2 ⟨hxmark, rfl, rfl⟩))

/-- What further operations leave of the marks of a circuit. -/
structure MarksKept (b b' : Build α) : Prop where
  /-- No live net has a marker and more than one functional pin. -/
  countP_le_one : ∀ n net, b'.net? n = some net → (∃ m ∈ net.pins, b'.isMarkerPin m = true) →
    net.pins.countP (fun p => !b'.isMarkerPin p) ≤ 1
  /-- A pin that was marked is marked. -/
  isNoConnect : ∀ p, b.isNoConnect p = true → b'.isNoConnect p = true
  /-- A functional pin that was marked is alone with markers. -/
  isolated : ∀ p, b.isNoConnect p = true → b.isMarkerPin p = false → b'.Isolated p
  /-- A pin that was marked refuses every tie. -/
  refused : ∀ p, b.isNoConnect p = true → ∀ op, b'.TiesOf p op → b'.RefusedAsMarked op

/-- The marks of every circuit that was built are kept by any further operations that do
not start again, whichever of them are refused. -/
theorem marksKept_run (name : String) (ops more : List (Operation α))
    (hmore : ∀ op ∈ more, op.restarts = false) :
    MarksKept ((new name).run ops) (((new name).run ops).run more) := by
  have hpins : ((new name).run ops).PinsOwned :=
    run_induction pinsOwned_cleared (fun _ _ g h => h.grow g) name ops
  have hpins' : (((new name).run ops).run more).PinsOwned :=
    growth_induction (fun _ _ g h => h.grow g) hmore hpins
  have hpersist := pinsPersist_run hpins hmore
  have hnets := netsAgree_run name (ops ++ more)
  have hguarded := guarded_run name (ops ++ more)
  rw [run_append] at hnets hguarded
  constructor
  case countP_le_one => exact fun n net hn => compatible_iff.1 (hguarded.compatible n net hn)
  case isNoConnect => exact hpersist.isNoConnect
  case isolated =>
    intro p hp hfunctional
    obtain ⟨x, hx, -⟩ := exists_pin_of_isNoConnect hp
    have hlt : p < ((new name).run ops).pins.size := (Array.getElem?_eq_some_iff.1 hx).1
    have hmark := hpersist.isNoConnect p hp
    exact hguarded.isolated hnets hmark ((hpersist.isMarkerPin p hlt).trans hfunctional)
  case refused =>
    exact fun p hp op t => refused_of_tiesOf hpins' (hpersist.isNoConnect p hp) t

/-- A resistor with a pin that is marked as unconnected. -/
def marked : List (Operation Int) :=
  [.addComponent { symbol := "Device:R", reference := "R1" }, .pin 0 "1", .markNoConnect 0 none]

/-- The net of the pin and its marker is moved into an empty one: the pin stays isolated and
refuses a second mark. -/
theorem marked_stays_isolated :
    (((new "marked").run marked).run [.addNet none, .tie 1 (.net 0)]).Isolated 0 ∧
      (((new "marked").run marked).run [.addNet none, .tie 1 (.net 0)]).RefusedAsMarked
        (.markNoConnect 0 none) := by
  have h := marksKept_run "marked" marked [.addNet none, .tie 1 (.net 0)] (by decide)
  exact ⟨h.isolated 0 rfl rfl, h.refused 0 rfl _ .mark⟩

end Build

end Schematic
