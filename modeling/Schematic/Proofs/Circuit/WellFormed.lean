import Schematic.Proofs.Circuit.Agreement

/-!
# Well-formed circuits

The arenas of a circuit under construction point into each other.  Whatever is
done to a circuit, and however many of the operations are refused, the pointers
agree: pins and nets name each other, every entry carries its own number and
every number stands for an entry, the pins of a component are those of its
table, and parents and members describe one forest of composables.

## Main definitions

* `Build.PinsOwned` — the table of a component lists the pins that name it.
* `Build.Nested` — parents and members describe one forest.
* `Build.Numbered` — every entry carries its place.
* `Build.InRange` — every number that is stored stands for an entry.
* `Build.WellFormed` — all of these, and that pins and nets agree.

## Main statements

* `Build.PinsOwned.grow`, `Build.Nested.grow`, `Build.Numbered.grow` — what every
  elementary change keeps.
* `Build.inRange_of` — numbers stand for entries because the two ends of every
  pointer agree.
* `Build.wellFormed_run` — every run leaves a well-formed circuit.
-/

namespace Schematic

namespace Build

variable {α : Type} {b b' : Build α}

/-! ### The pins of a component -/

/-- The table of a component has the pins that name the component, each under the key
that the pin names, and lists each of them once. -/
structure PinsOwned (b : Build α) : Prop where
  /-- What the table says of a key is what the pin says of its place. -/
  key_iff : ∀ i key p, (key, p) ∈ (b.tableOf i).keys.entries ↔ b.site? p = some (i, key)
  /-- No key has two pins. -/
  keys_nodup : ∀ i, ((b.tableOf i).keys.entries.map Prod.fst).Nodup
  /-- The list in order of first touch has the same pins. -/
  id_iff : ∀ i p, p ∈ (b.tableOf i).ids ↔ ∃ key, b.site? p = some (i, key)
  /-- No pin was touched first twice. -/
  ids_nodup : ∀ i, (b.tableOf i).ids.Nodup

theorem lt_size_of_site? {p : PinId} {s : ComponentId × String} (h : b.site? p = some s) :
    p < b.pins.size := by
  obtain ⟨x, hx, -⟩ := Option.map_eq_some_iff.1 h
  exact (Array.getElem?_eq_some_iff.1 hx).1

/-- A change that leaves the tables and the places of the pins alone. -/
theorem PinsOwned.congr (h : b.PinsOwned) (htable : ∀ i, b'.tableOf i = b.tableOf i)
    (hsite : ∀ p, b'.site? p = b.site? p) : b'.PinsOwned where
  key_iff i key p := by rw [htable, hsite, h.key_iff]
  keys_nodup i := by rw [htable]; exact h.keys_nodup i
  id_iff i p := by simp only [htable, hsite, h.id_iff]
  ids_nodup i := by rw [htable]; exact h.ids_nodup i

theorem PinsOwned.putPin (h : b.PinsOwned) {component : ComponentId} {key : String}
    (known : component < b.components.size) (new : (b.tableOf component).find? key = none) :
    (b.putPin component key).PinsOwned := by
  have hold : ∀ s, b.site? b.pins.size ≠ some s := fun s hs =>
    Nat.lt_irrefl _ (lt_size_of_site? hs)
  -- the number of the new pin has no place yet, so that no table lists it
  have hnew : ∀ i, b.pins.size ∉ (b.tableOf i).ids := fun i hmem => by
    obtain ⟨k, hk⟩ := (h.id_iff i _).1 hmem
    exact hold _ hk
  have hperm := Table.entries_insert_perm b.pins.size new
  constructor
  case key_iff =>
    intro i k p
    rw [putPin_tableOf b known, putPin_site?]
    by_cases hi : component = i
    · subst hi
      rw [if_pos rfl, PinTable.keys_push, hperm.mem_iff, List.mem_cons, h.key_iff]
      by_cases hp : p = b.pins.size
      · subst hp
        simp [hold, eq_comm]
      · simp [hp]
    · rw [if_neg hi, h.key_iff]
      by_cases hp : p = b.pins.size
      · subst hp
        simp [hold, hi]
      · rw [if_neg hp]
  case keys_nodup =>
    intro i
    rw [putPin_tableOf b known]
    split
    · next hi =>
      subst hi
      rw [PinTable.keys_push, (hperm.map Prod.fst).nodup_iff, List.map_cons, List.nodup_cons]
      refine ⟨fun hmem => ?_, h.keys_nodup component⟩
      obtain ⟨e, he, hkey⟩ := List.mem_map.1 hmem
      exact Table.find?_eq_none_iff.1 new e he hkey
    · exact h.keys_nodup i
  case id_iff =>
    intro i p
    simp only [putPin_tableOf b known, putPin_site?]
    by_cases hp : p = b.pins.size
    · subst hp
      by_cases hi : component = i <;> simp [hi, hnew]
    · by_cases hi : component = i <;> simp [hi, hp, h.id_iff]
  case ids_nodup =>
    intro i
    rw [putPin_tableOf b known]
    split
    · rw [PinTable.ids_push]
      exact List.concat_eq_append ▸ (h.ids_nodup i).concat (hnew i)
    · exact h.ids_nodup i

/-- Every elementary change keeps the tables right. -/
theorem PinsOwned.grow (h : b.PinsOwned) (g : Growth b b') : b'.PinsOwned := by
  cases g with
  | component known => exact h.congr (fun i => putComponent_tableOf ..) fun p => by simp [site?]
  | marker bare => exact h.congr (fun i => setMarker_tableOf ..) fun _ => rfl
  | composable known => exact h.congr (fun i => by simp [tableOf]) fun p => by simp [site?]
  | net => exact h.congr (fun _ => rfl) fun _ => rfl
  | power => exact h.congr (fun _ => rfl) fun _ => rfl
  | numbering => exact h.congr (fun _ => rfl) fun _ => rfl
  | pin known new => exact h.putPin known new
  | attach live known free room => exact h.congr (fun _ => rfl) fun p => attach_site? ..
  | absorb ne live other room =>
    exact h.congr (fun i => by simp [tableOf]) fun p => absorb_site? ..
  | noConnect on beside isMarker => exact h.congr (fun _ => rfl) fun p => setNoConnect_site? ..
  | port live => exact h.congr (fun _ => rfl) fun _ => rfl
  | interface => exact h.congr (fun _ => rfl) fun _ => rfl

/-! ### The forest of composables -/

/-- Parents and members describe one forest. -/
structure Nested (b : Build α) : Prop where
  /-- The members of a composable are those that name it as their parent. -/
  child_iff : ∀ i c, c ∈ b.childrenOf i ↔ b.parentOf? c = some (some i)
  /-- A composable lists each member once. -/
  nodup : ∀ i, (b.childrenOf i).Nodup
  /-- The parent of a composable has a smaller number. -/
  lt : ∀ i j, b.parentOf? (.composable i) = some (some j) → j < i

/-- A change that leaves parents and members alone. -/
theorem Nested.congr (h : b.Nested) (hparent : ∀ c, b'.parentOf? c = b.parentOf? c)
    (hchildren : ∀ i, b'.childrenOf i = b.childrenOf i) : b'.Nested where
  child_iff i c := by rw [hparent, hchildren, h.child_iff]
  nodup i := by rw [hchildren]; exact h.nodup i
  lt i j hj := h.lt i j ((hparent _).symm.trans hj)

/-- A new member that is put into its parent, which is smaller if the member is a
composable. -/
theorem Nested.put (h : b.Nested) {x : Child} {parent : Option ComposableId}
    (new : b.parentOf? x = none) (below : ∀ i j, x = .composable i → parent = some j → j < i)
    (hparent : ∀ c, b'.parentOf? c = if c = x then some parent else b.parentOf? c)
    (hchildren : ∀ i, b'.childrenOf i =
      if parent = some i then b.childrenOf i ++ [x] else b.childrenOf i) : b'.Nested := by
  -- what has no parent is nobody's member
  have hx : ∀ i, x ∉ b.childrenOf i := fun i hmem => by
    rw [(h.child_iff i x).1 hmem] at new
    cases new
  constructor
  case child_iff =>
    intro i c
    rw [hparent, hchildren]
    by_cases hc : c = x
    · subst hc
      by_cases hi : parent = some i <;> simp [hi, hx]
    · by_cases hi : parent = some i <;> simp [hi, hc, h.child_iff]
  case nodup =>
    intro i
    rw [hchildren]
    split
    · exact List.concat_eq_append ▸ (h.nodup i).concat (hx i)
    · exact h.nodup i
  case lt =>
    intro i j hj
    rw [hparent] at hj
    split at hj
    · next heq => exact below i j heq.symm (Option.some.inj hj)
    · exact h.lt i j hj

/-- Every elementary change keeps the forest. -/
theorem Nested.grow (h : b.Nested) (g : Growth b b') : b'.Nested := by
  cases g with
  | component known =>
    refine h.put (by simp [parentOf?]) (by rintro _ _ ⟨⟩) (putComponent_parentOf? b _)
      (putComponent_childrenOf b known)
  | marker bare => exact h.congr (fun c => setMarker_parentOf? ..) fun _ => rfl
  | composable known =>
    refine h.put (by simp [parentOf?]) ?_ (putComposable_parentOf? b _ _ _)
      (putComposable_childrenOf b _ _ known)
    rintro _ j ⟨⟩ hj
    exact known j hj
  | net => exact h.congr (fun c => by cases c <;> rfl) fun _ => rfl
  | power => exact h.congr (fun c => by cases c <;> rfl) fun _ => rfl
  | numbering => exact h.congr (fun c => by cases c <;> rfl) fun _ => rfl
  | pin known new => exact h.congr (fun c => putPin_parentOf? ..) fun _ => rfl
  | attach live known free room => exact h.congr (fun c => by cases c <;> rfl) fun _ => rfl
  | absorb ne live other room =>
    exact h.congr (fun c => by cases c <;> simp [parentOf?]) fun i => by simp [childrenOf]
  | noConnect on beside isMarker => exact h.congr (fun c => by cases c <;> rfl) fun _ => rfl
  | port live => exact h.congr (fun c => setPort_parentOf? ..) fun i => setPort_childrenOf ..
  | interface =>
    exact h.congr (fun c => setInterface_parentOf? ..) fun i => setInterface_childrenOf ..

/-! ### Numbers of entries -/

/-- The entries of an array carry their places. -/
def CarriesPlace {β : Type} (id : β → Nat) (xs : Array β) : Prop :=
  ∀ i x, xs[i]? = some x → id x = i

section CarriesPlace

variable {β : Type} {id : β → Nat} {xs ys : Array β}

theorem CarriesPlace.congr (h : CarriesPlace id xs)
    (heq : ∀ i : Nat, ys[i]?.map id = xs[i]?.map id) : CarriesPlace id ys := by
  intro i y hy
  have hid : xs[i]?.map id = some (id y) := by rw [← heq, hy]; rfl
  obtain ⟨x, hx, hxy⟩ := Option.map_eq_some_iff.1 hid
  rw [← hxy, h i x hx]

theorem CarriesPlace.push (h : CarriesPlace id xs) {x : β} (hx : id x = xs.size) :
    CarriesPlace id (xs.push x) := by
  intro i y hy
  rw [Array.getElem?_push] at hy
  split at hy
  · next hi =>
    cases hy
    rw [hx, hi]
  · exact h i y hy

theorem CarriesPlace.modify (h : CarriesPlace id xs) (i : Nat) {f : β → β}
    (hf : ∀ x, id (f x) = id x) : CarriesPlace id (xs.modify i f) := by
  refine h.congr fun j => ?_
  rw [Array.getElem?_modify]
  split <;> simp [Function.comp_def, hf]

end CarriesPlace

/-- Every entry carries its place. -/
structure Numbered (b : Build α) : Prop where
  /-- A component carries its place. -/
  component : CarriesPlace (·.id) b.components
  /-- A pin carries its place. -/
  pin : CarriesPlace (·.id) b.pins
  /-- A live net carries its place. -/
  net : ∀ n x, b.net? n = some x → x.id = n
  /-- A composable carries its place. -/
  composable : CarriesPlace (·.id) b.composables

theorem Numbered.addChild (h : b.Numbered) (parent : Option ComposableId) (child : Child) :
    (b.addChild parent child).Numbered := by
  cases parent with
  | none => exact h
  | some i => exact { h with composable := h.composable.modify i fun _ => rfl }

theorem Numbered.modifyNet (h : b.Numbered) (net : NetId) {f : Net → Net}
    (hf : ∀ n, (f n).id = n.id) : (b.modifyNet net f).Numbered where
  component := h.component
  pin := h.pin
  composable := h.composable
  net n x hx := by
    rw [modifyNet_net?] at hx
    split at hx
    · obtain ⟨y, hy, rfl⟩ := Option.map_eq_some_iff.1 hx
      rw [hf, h.net n y hy]
    · exact h.net n x hx

theorem Numbered.retire (h : b.Numbered) (net : NetId) : (b.retire net).Numbered where
  component := h.component
  pin := h.pin
  composable := h.composable
  net n x hx := by
    rw [retire_net?] at hx
    split at hx
    · cases hx
    · exact h.net n x hx

theorem Numbered.setNetOf (h : b.Numbered) (net : NetId) (pin : PinId) :
    (b.setNetOf net pin).Numbered :=
  { h with pin := h.pin.modify pin fun _ => rfl }

theorem Numbered.foldl_setNetOf (h : b.Numbered) (net : NetId) (pins : List PinId) :
    (pins.foldl (Build.setNetOf · net) b).Numbered := by
  induction pins generalizing b with
  | nil => exact h
  | cons p ps ih => exact ih (h.setNetOf net p)

/-- Every elementary change leaves every entry with its place. -/
theorem Numbered.grow (h : b.Numbered) (g : Growth b b') : b'.Numbered := by
  cases g with
  | @component spec known =>
    refine addChild (b := { b with components := b.components.push (spec.component _) }) ?_ _ _
    exact { h with component := h.component.push rfl }
  | marker bare => exact { h with component := h.component.modify _ fun _ => rfl }
  | composable known =>
    refine addChild (b := { b with composables := b.composables.push _ }) ?_ _ _
    exact { h with composable := h.composable.push rfl }
  | net =>
    refine { h with net := fun n x hx => ?_ }
    rw [putNet_net?] at hx
    split at hx
    · cases hx
      rfl
    · exact h.net n x hx
  | power => exact h.modifyNet _ fun _ => rfl
  | numbering => exact { h with }
  | pin known new =>
    exact { h with
      component := h.component.modify _ fun _ => rfl
      pin := h.pin.push rfl }
  | attach live known free room => exact (h.setNetOf _ _).modifyNet _ fun _ => rfl
  | absorb ne live other room =>
    exact ((h.retire _).foldl_setNetOf _ _).modifyNet _ fun _ => rfl
  | noConnect on beside isMarker => exact { h with pin := h.pin.modify _ fun _ => rfl }
  | port live => exact { h with composable := h.composable.modify _ fun _ => rfl }
  | interface => exact { h with composable := h.composable.modify _ fun _ => rfl }

/-! ### Numbers that stand for entries -/

/-- A member that exists. -/
def Holds (b : Build α) : Child → Prop
  | .component i => i < b.components.size
  | .composable i => i < b.composables.size

/-- Every number that an entry stores stands for an entry. -/
structure InRange (b : Build α) : Prop where
  /-- The parent of a component or composable exists. -/
  parent : ∀ c i, b.parentOf? c = some (some i) → i < b.composables.size
  /-- The members of a composable exist. -/
  child : ∀ i, ∀ c ∈ b.childrenOf i, b.Holds c
  /-- The pins that a component has by key exist. -/
  key : ∀ i key p, (key, p) ∈ (b.tableOf i).keys.entries → p < b.pins.size
  /-- The pins that a component has in order of first touch exist. -/
  id : ∀ i, ∀ p ∈ (b.tableOf i).ids, p < b.pins.size
  /-- The component of a pin exists. -/
  component : ∀ p i key, b.site? p = some (i, key) → i < b.components.size
  /-- The net of a pin exists. -/
  net : ∀ p n, b.netOf? p = some n → n < b.nets.size
  /-- The pins of a live net exist. -/
  pin : ∀ n x, b.net? n = some x → ∀ p ∈ x.pins, p < b.pins.size

theorem lt_size_of_mem_childrenOf {i : ComposableId} {c : Child} (h : c ∈ b.childrenOf i) :
    i < b.composables.size := by
  refine Nat.lt_of_not_le fun hi => ?_
  rw [childrenOf, Array.getElem?_eq_none hi] at h
  cases h

theorem lt_size_of_mem_tableOf {i : ComponentId} {e : String × PinId}
    (h : e ∈ (b.tableOf i).keys.entries) : i < b.components.size := by
  refine Nat.lt_of_not_le fun hi => ?_
  rw [tableOf, Array.getElem?_eq_none hi] at h
  cases h

theorem holds_of_parentOf? {c : Child} {parent : Option ComposableId}
    (h : b.parentOf? c = some parent) : b.Holds c := by
  cases c <;>
    (obtain ⟨x, hx, -⟩ := Option.map_eq_some_iff.1 h
     exact (Array.getElem?_eq_some_iff.1 hx).1)

/-- Where two entries point at each other, each of them exists: one is found by the
other's number, and what is found exists. -/
theorem inRange_of (hnets : b.NetsAgree) (howned : b.PinsOwned) (hnested : b.Nested) :
    b.InRange where
  parent c i h := lt_size_of_mem_childrenOf ((hnested.child_iff i c).2 h)
  child i c h := holds_of_parentOf? ((hnested.child_iff i c).1 h)
  key i key p h := lt_size_of_site? ((howned.key_iff i key p).1 h)
  id i p h := by
    obtain ⟨key, hkey⟩ := (howned.id_iff i p).1 h
    exact lt_size_of_site? hkey
  component p i key h := lt_size_of_mem_tableOf ((howned.key_iff i key p).2 h)
  net p n h := by
    obtain ⟨x, hx, -⟩ := (hnets.netOf_iff p n).1 h
    exact lt_size_of_net? hx
  pin n x hx p hp := lt_size_of_netOf? (hnets.netOf?_of_mem hx hp)

/-! ### Well-formed circuits -/

/-- All that a circuit under construction keeps to. -/
structure WellFormed (b : Build α) : Prop where
  /-- Pins and nets name each other. -/
  nets : b.NetsAgree
  /-- Every entry carries its place. -/
  numbered : b.Numbered
  /-- Every number that is stored stands for an entry. -/
  inRange : b.InRange
  /-- The table of a component has the pins that name it. -/
  pins : b.PinsOwned
  /-- No two pins of a component have one key. -/
  distinct : ∀ p q s, b.site? p = some s → b.site? q = some s → p = q
  /-- Parents and members describe one forest. -/
  forest : b.Nested

theorem PinsOwned.eq_of_site? (h : b.PinsOwned) {p q : PinId} {s : ComponentId × String}
    (hp : b.site? p = some s) (hq : b.site? q = some s) : p = q := by
  -- both pins stand under this key in the table of the component
  have hinj := List.inj_on_of_nodup_map (h.keys_nodup s.1)
  have heq := hinj ((h.key_iff s.1 s.2 p).2 hp) ((h.key_iff s.1 s.2 q).2 hq) rfl
  exact congrArg Prod.snd heq

theorem pinsOwned_cleared (b : Build α) : b.cleared.PinsOwned where
  key_iff i key p := by
    change (key, p) ∈ [] ↔ none = some (i, key)
    simp
  keys_nodup i := List.nodup_nil
  id_iff i p := by
    change p ∈ [] ↔ ∃ key, none = some (i, key)
    simp
  ids_nodup i := List.nodup_nil

theorem nested_cleared (b : Build α) : b.cleared.Nested where
  child_iff i c := by cases c <;> simp [cleared, childrenOf, parentOf?]
  nodup i := List.nodup_nil
  lt i j h := by cases h

theorem numbered_cleared (b : Build α) : b.cleared.Numbered where
  component i x h := by cases h
  pin i x h := by cases h
  net n x h := by cases h
  composable i x h := by cases h

/-- Whatever has been done to an empty circuit without starting again, it is well-formed. -/
theorem wellFormed_of_chain (hchain : Relation.ReflTransGen Growth b.cleared b') :
    b'.WellFormed := by
  have hnets := (netsAgree_cleared b).chain hchain
  have hpins : b'.PinsOwned :=
    growth_chain (fun _ _ g h => h.grow g) hchain (pinsOwned_cleared b)
  have hforest : b'.Nested := growth_chain (fun _ _ g h => h.grow g) hchain (nested_cleared b)
  exact {
    nets := hnets
    numbered := growth_chain (fun _ _ g h => h.grow g) hchain (numbered_cleared b)
    inRange := inRange_of hnets hpins hforest
    pins := hpins
    distinct := fun _ _ _ hp hq => hpins.eq_of_site? hp hq
    forest := hforest }

/-- Whatever operations a circuit has seen, in whatever order and with whatever numbers,
and whichever of them were refused, it is well-formed. -/
theorem wellFormed_run (name : String) (ops : List (Operation α)) :
    ((new name).run ops).WellFormed := by
  have hnets := netsAgree_run name ops
  have hpins := run_induction pinsOwned_cleared (fun _ _ g h => h.grow g) name ops
  have hforest := run_induction nested_cleared (fun _ _ g h => h.grow g) name ops
  have hnumbered := run_induction numbered_cleared (fun _ _ g h => h.grow g) name ops
  exact {
    nets := hnets
    numbered := hnumbered
    inRange := inRange_of hnets hpins hforest
    pins := hpins
    distinct := fun _ _ _ hp hq => hpins.eq_of_site? hp hq
    forest := hforest }

end Build

end Schematic
