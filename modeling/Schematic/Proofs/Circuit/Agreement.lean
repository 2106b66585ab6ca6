import Mathlib.Data.List.Nodup
import Schematic.Proofs.Circuit.Operation

/-!
# Pins and nets agree

A pin names the net it is on, and a net lists its pins.  The two are written in
different places, by ties that move one pin or all the pins of a net, and say
the same whatever is done to a circuit.

## Main definitions

* `Build.SameNets` — a change that leaves the nets and their pins alone.
* `Build.NetsAgree` — a pin names a net exactly when the net is live and lists
  it, once.

## Main statements

* `Build.NetsAgree.grow` — every elementary change keeps the agreement.
* `Build.netsAgree_run` — it holds after every run.
-/

namespace Schematic

namespace Build

variable {α : Type} {b b' : Build α}

/-! ### Changes that leave the nets alone -/

/-- The same nets are live, each with the same pins, and every pin is on the same net. -/
structure SameNets (b b' : Build α) : Prop where
  /-- As many nets were made. -/
  size_eq : b'.nets.size = b.nets.size
  /-- A net has the same pins, or is retired as before. -/
  pins_eq : ∀ n, (b'.net? n).map (·.pins) = (b.net? n).map (·.pins)
  /-- A pin is on the same net, or on none as before. -/
  netOf?_eq : ∀ p, b'.netOf? p = b.netOf? p

theorem SameNets.of_eq (hnets : b'.nets = b.nets) (hpins : b'.pins = b.pins) :
    SameNets b b' where
  size_eq := by rw [hnets]
  pins_eq n := by rw [net?, net?, hnets]
  netOf?_eq p := by rw [netOf?, netOf?, hpins]

theorem SameNets.trans {b'' : Build α} (h : SameNets b b') (h' : SameNets b' b'') :
    SameNets b b'' where
  size_eq := h'.size_eq.trans h.size_eq
  pins_eq n := (h'.pins_eq n).trans (h.pins_eq n)
  netOf?_eq p := (h'.netOf?_eq p).trans (h.netOf?_eq p)

instance : Trans (SameNets (α := α)) (SameNets (α := α)) (SameNets (α := α)) := ⟨.trans⟩

theorem SameNets.exists_net (h : SameNets b b') {n : NetId} {net : Net}
    (hn : b'.net? n = some net) : ∃ old, b.net? n = some old ∧ old.pins = net.pins := by
  have hpins : (b.net? n).map (·.pins) = some net.pins := by rw [← h.pins_eq, hn]; rfl
  exact Option.map_eq_some_iff.1 hpins

theorem SameNets.isSome_eq (h : SameNets b b') (n : NetId) :
    (b'.net? n).isSome = (b.net? n).isSome := by
  have hsome := congrArg Option.isSome (h.pins_eq n)
  rwa [Option.isSome_map, Option.isSome_map] at hsome

theorem sameNets_putComponent (spec : ComponentSpec α) : SameNets b (b.putComponent spec) :=
  .of_eq (putComponent_nets ..) (putComponent_pins ..)

theorem sameNets_putComposable (name : String) (parent : Option ComposableId)
    (position : Option (Placement α)) : SameNets b (b.putComposable name parent position) :=
  .of_eq (putComposable_nets ..) (putComposable_pins ..)

theorem sameNets_power (net : NetId) (power : Bool) :
    SameNets b (b.modifyNet net fun n => { n with power }) where
  size_eq := by simp [modifyNet]
  pins_eq n := by
    rw [modifyNet_net?]
    split <;> simp [Function.comp_def]
  netOf?_eq _ := rfl

/-- A new pin is on no net. -/
theorem sameNets_putPin (component : ComponentId) (key : String) :
    SameNets b (b.putPin component key) where
  size_eq := rfl
  pins_eq _ := rfl
  netOf?_eq _ := putPin_netOf? ..

theorem sameNets_setNoConnect (pin : PinId) : SameNets b (b.setNoConnect pin) where
  size_eq := rfl
  pins_eq _ := rfl
  netOf?_eq _ := setNoConnect_netOf? ..

/-! ### Pins name their nets -/

/-- A pin names a net exactly when that net is live and lists the pin; a net lists no
pin twice. -/
structure NetsAgree (b : Build α) : Prop where
  /-- What a pin says of its net is what the net says of its pins. -/
  netOf_iff : ∀ p n, b.netOf? p = some n ↔ ∃ net, b.net? n = some net ∧ p ∈ net.pins
  /-- No net lists a pin twice. -/
  nodup : ∀ n net, b.net? n = some net → net.pins.Nodup

theorem NetsAgree.netOf?_of_mem (h : b.NetsAgree) {n : NetId} {net : Net} {p : PinId}
    (hn : b.net? n = some net) (hp : p ∈ net.pins) : b.netOf? p = some n :=
  (h.netOf_iff p n).2 ⟨net, hn, hp⟩

theorem NetsAgree.mem_iff (h : b.NetsAgree) {n : NetId} {net : Net} (hn : b.net? n = some net)
    (p : PinId) : p ∈ net.pins ↔ b.netOf? p = some n := by
  refine ⟨h.netOf?_of_mem hn, fun hp => ?_⟩
  obtain ⟨net', hn', hmem⟩ := (h.netOf_iff p n).1 hp
  rw [hn] at hn'
  cases hn'
  exact hmem

theorem NetsAgree.congr (h : b.NetsAgree) (same : SameNets b b') : b'.NetsAgree where
  netOf_iff p n := by
    have hmem : ∀ c : Build α, (∃ net, c.net? n = some net ∧ p ∈ net.pins) ↔
        ∃ ps, (c.net? n).map (·.pins) = some ps ∧ p ∈ ps := fun c => by
      cases c.net? n <;> simp
    rw [same.netOf?_eq, h.netOf_iff, hmem, hmem, same.pins_eq]
  nodup n net hn := by
    obtain ⟨old, hold, heq⟩ := same.exists_net hn
    exact heq ▸ h.nodup n old hold

theorem NetsAgree.putNet (h : b.NetsAgree) (name : Option String) :
    (b.putNet name).NetsAgree where
  netOf_iff p n := by
    change b.netOf? p = some n ↔ _
    rw [h.netOf_iff, putNet_net?]
    by_cases hn : n = b.nets.size
    · subst hn
      rw [if_pos rfl]
      constructor
      · rintro ⟨net, hnet, -⟩
        exact absurd (lt_size_of_net? hnet) (Nat.lt_irrefl _)
      · rintro ⟨_, ⟨⟩, hmem⟩
        cases hmem
    · rw [if_neg hn]
  nodup n net hnet := by
    rw [putNet_net?] at hnet
    split at hnet
    · cases hnet
      exact List.nodup_nil
    · exact h.nodup n net hnet

theorem NetsAgree.attach (h : b.NetsAgree) {net : NetId} {pin : PinId} {n : Net} {p : Pin}
    (live : b.net? net = some n) (known : b.pins[pin]? = some p) (free : p.net = none) :
    (b.attach net pin).NetsAgree where
  netOf_iff q m := by
    have hfree : b.netOf? pin = none := (netOf?_of_pin known).trans free
    rw [attach_netOf?, attach_net?]
    -- only this pin gets a net, and only this net gets a pin
    by_cases hq : pin = q
    · subst hq
      rw [if_pos rfl, known]
      by_cases hm : net = m
      · subst hm
        simp [live]
      · simp only [hm, Option.map_some, Option.some.injEq, if_false, false_iff]
        rintro ⟨x, hx, hmem⟩
        rw [h.netOf?_of_mem hx hmem] at hfree
        cases hfree
    · rw [if_neg hq, h.netOf_iff]
      by_cases hm : net = m
      · subst hm
        simp [live, Ne.symm hq]
      · rw [if_neg hm]
  nodup m x hx := by
    rw [attach_net?] at hx
    by_cases hm : net = m
    · subst hm
      rw [if_pos rfl, live] at hx
      cases hx
      have hnew : pin ∉ n.pins := fun hmem => by
        rw [netOf?_of_pin known |>.symm.trans (h.netOf?_of_mem live hmem)] at free
        cases free
      change (n.pins ++ [pin]).Nodup
      exact List.concat_eq_append ▸ (h.nodup net n live).concat hnew
    · rw [if_neg hm] at hx
      exact h.nodup m x hx

/-! ### Moving a net -/

/-- Where a net has gone when `source` is moved into `net`. -/
def moved (net source m : NetId) : NetId := if m = source then net else m

theorem moved_self (net source : NetId) : moved net source source = net := if_pos rfl

theorem moved_of_ne {source m : NetId} (net : NetId) (h : m ≠ source) :
    moved net source m = m := if_neg h

theorem map_moved_eq_some {net source : NetId} (ne : net ≠ source) {o : Option NetId}
    {m : NetId} : o.map (moved net source) = some m ↔
      m ≠ source ∧ (o = some m ∨ m = net ∧ o = some source) := by
  constructor
  · intro h
    obtain ⟨k, rfl, rfl⟩ := Option.map_eq_some_iff.1 h
    by_cases hk : k = source
    · subst hk
      rw [moved_self]
      exact ⟨ne, .inr ⟨rfl, rfl⟩⟩
    · rw [moved_of_ne net hk]
      exact ⟨hk, .inl rfl⟩
  · rintro ⟨hne, rfl | ⟨rfl, rfl⟩⟩
    · rw [Option.map_some, moved_of_ne net hne]
    · rw [Option.map_some, moved_self]

/-- The pins of a net that is moved are exactly those that change their net. -/
theorem NetsAgree.absorb_netOf? (h : b.NetsAgree) {net source : NetId} {r : Net}
    (other : b.net? source = some r) (p : PinId) :
    (b.absorb net source r).netOf? p = (b.netOf? p).map (moved net source) := by
  rw [Build.absorb_netOf?]
  split
  · next hmem =>
    have hp := h.netOf?_of_mem other hmem
    obtain ⟨x, hx, -⟩ := netOf?_eq_some.1 hp
    rw [hx, hp, Option.map_some, Option.map_some, moved_self]
  · next hmem =>
    cases hp : b.netOf? p with
    | none => rfl
    | some m =>
      have hm : m ≠ source := by
        rintro rfl
        exact hmem ((h.mem_iff other p).2 hp)
      rw [Option.map_some, moved_of_ne net hm]

theorem NetsAgree.absorb (h : b.NetsAgree) {net source : NetId} {n r : Net} (ne : net ≠ source)
    (live : b.net? net = some n) (other : b.net? source = some r) :
    (b.absorb net source r).NetsAgree where
  netOf_iff p m := by
    rw [h.absorb_netOf? other, map_moved_eq_some ne, absorb_net? b ne]
    -- the net that is moved has no pins left, the one it is moved into has those of both
    by_cases hs : source = m
    · subst hs
      simp
    by_cases hm : net = m
    · subst hm
      simp [hs, live, Net.absorb, h.mem_iff live, h.mem_iff other, ne]
    · simp [hs, hm, Ne.symm hs, Ne.symm hm, h.netOf_iff]
  nodup m x hx := by
    rw [absorb_net? b ne] at hx
    split at hx
    · cases hx
    split at hx
    · next hm =>
      subst hm
      rw [live] at hx
      cases hx
      refine (h.nodup net n live).append (h.nodup source r other) fun p hp hq => ?_
      have hnet := h.netOf?_of_mem live hp
      rw [h.netOf?_of_mem other hq] at hnet
      exact ne (Option.some.inj hnet).symm
    · exact h.nodup m x hx

/-! ### Runs -/

/-- Every elementary change keeps the agreement of pins and nets. -/
theorem NetsAgree.grow (h : b.NetsAgree) (g : Growth b b') : b'.NetsAgree := by
  cases g with
  | component known => exact h.congr (sameNets_putComponent _)
  | marker bare => exact h.congr (.of_eq rfl rfl)
  | composable known => exact h.congr (sameNets_putComposable ..)
  | net => exact h.putNet _
  | power => exact h.congr (sameNets_power ..)
  | numbering => exact h.congr (.of_eq rfl rfl)
  | pin known new => exact h.congr (sameNets_putPin ..)
  | attach live known free room => exact h.attach live known free
  | absorb ne live other room => exact h.absorb ne live other
  | noConnect on beside isMarker => exact h.congr (sameNets_setNoConnect _)
  | port live => exact h.congr (.of_eq rfl rfl)
  | interface => exact h.congr (.of_eq rfl rfl)

theorem NetsAgree.chain (h : b.NetsAgree) (c : Relation.ReflTransGen Growth b b') :
    b'.NetsAgree :=
  growth_chain (fun _ _ g h => h.grow g) c h

theorem netsAgree_cleared (b : Build α) : b.cleared.NetsAgree where
  netOf_iff p n := by simp [cleared, netOf?, net?]
  nodup n net hn := by simp [cleared, net?] at hn

/-- Pins and nets agree after every run. -/
theorem netsAgree_run (name : String) (ops : List (Operation α)) :
    ((new name).run ops).NetsAgree :=
  run_induction netsAgree_cleared (fun _ _ g h => h.grow g) name ops

end Build

end Schematic
