import Mathlib.Combinatorics.SimpleGraph.Connectivity.Connected
import Schematic.Proofs.Circuit.Agreement

/-!
# Nets are connected components

Every tie that is accepted links what is tied to a net.  The links that were made
since the circuit was started are the edges of a graph on the pins and nets, the
retired ones included, and the live nets are what is connected in it: a net is
retired when its pins move to another one, but its links stay.

The proof keeps, for every net there ever was, the live net that its pins have
come to, its *home*.

## Main definitions

* `Build.links`, `Build.history` — the links an operation makes, and those made
  since the circuit was started.
* `linkGraph` — the graph of a list of links.
* `Build.NetsAreComponents`, `Build.MergesNets` — the live nets are the connected
  components, and a tie makes one of two.
* `Build.Homes` — the invariant.

## Main statements

* `Build.homes_tied` — what a tie does to the homes.
* `Build.homes_history` — every net has a home after every run.
* `Build.netsAreComponents_run` — the nets are the components of the links.
-/

namespace Schematic

/-- The pins among what can be tied. -/
def Tie.pins : Tie → List PinId
  | .pin p => [p]
  | .net _ => []

/-- The links of pins to a net. -/
def linked (pins : List PinId) (net : NetId) : List (Tie × NetId) :=
  pins.map fun p => (.pin p, net)

/-- The graph on pins and nets whose edges are the links. -/
def linkGraph (links : List (Tie × NetId)) : SimpleGraph Tie :=
  .fromRel fun x y => ∃ n, y = .net n ∧ (x, n) ∈ links

namespace Build

variable {α : Type}

/-- The links an operation makes: a tie links its target to the net, and any other
operation that ties pins links them to the net they end up on. -/
def links (b : Build α) (op : Operation α) : List (Tie × NetId) :=
  match op, op.perform b with
  | .tie net target, .ok _ _ => [(target, net)]
  | .tiePins first second, .ok (.net n) _ => linked [first, second] n
  | .connect component key target, .ok (.net n) _ =>
      linked ((b.keyed? component key).toList ++ target.pins) n
  | .markNoConnect target _, .ok (.component marker) b' =>
      (b'.netOf? target).toList.flatMap (linked (target :: (b'.tableOf marker).ids))
  | _, _ => []

/-- The links made since the circuit was last started. -/
def history (b : Build α) (made : List (Tie × NetId)) :
    List (Operation α) → List (Tie × NetId)
  | [] => made
  | op :: ops => (b.after op).history (if op.restarts then [] else made ++ b.links op) ops

/-- A pin that exists, or a net that was made, whether it is live or retired. -/
def Made (b : Build α) : Tie → Prop
  | .pin p => p < b.pins.size
  | .net n => n < b.nets.size

/-- The live nets are what is connected in a graph on pins and nets. -/
structure NetsAreComponents (b : Build α) (G : SimpleGraph Tie) : Prop where
  /-- The edges are between pins and nets that were made. -/
  made_of_adj : ∀ x y, G.Adj x y → b.Made x
  /-- Two pins are on one net exactly when they are connected. -/
  same_net_iff : ∀ p q, p ≠ q →
    ((∃ n, b.netOf? p = some n ∧ b.netOf? q = some n) ↔ G.Reachable (.pin p) (.pin q))
  /-- A pin is on no net exactly when it has no edge. -/
  no_net_iff : ∀ p, b.netOf? p = none ↔ ∀ x, ¬G.Adj (.pin p) x
  /-- Among the nets connected to a net there is one that is live. -/
  live : ∀ n, n < b.nets.size → ∃ m net, b.net? m = some net ∧ G.Reachable (.net n) (.net m)
  /-- There is no other. -/
  unique : ∀ m m' net net', b.net? m = some net → b.net? m' = some net' →
    G.Reachable (.net m) (.net m') → m = m'
  /-- The pins of a live net are the pins connected to it, each listed once. -/
  pins : ∀ m net, b.net? m = some net →
    net.pins.Nodup ∧ ∀ p, p ∈ net.pins ↔ G.Reachable (.net m) (.pin p)

/-! ### Homes -/

variable {b b' : Build α} {made : List (Tie × NetId)} {home : NetId → NetId}

/-- Where a pin or net has come to, when nets have come home. -/
def place (b : Build α) (home : NetId → NetId) : Tie → Option NetId
  | .pin p => b.netOf? p
  | .net n => if n < b.nets.size then some (home n) else none

/-- Every net has a live net as its home. -/
structure Housed (b : Build α) (home : NetId → NetId) : Prop where
  /-- The home of a net is live. -/
  live : ∀ n, n < b.nets.size → ∃ net, b.net? (home n) = some net
  /-- A live net is its own home. -/
  fixed : ∀ n net, b.net? n = some net → home n = n
  /-- A net to come will be its own home. -/
  above : ∀ n, b.nets.size ≤ n → home n = n

/-- The two ends of every link have come to one net, and what has come to a net is
connected to it. -/
structure Homes (b : Build α) (made : List (Tie × NetId)) (home : NetId → NetId) : Prop
    extends b.Housed home where
  /-- The ends of a link have come to one net. -/
  agree : ∀ x n, (x, n) ∈ made →
    ∃ m, b.place home x = some m ∧ b.place home (.net n) = some m
  /-- What has come to a net is connected to it. -/
  reach : ∀ x m, b.place home x = some m → (linkGraph made).Reachable x (.net m)

theorem linkGraph_adj {x y : Tie} : (linkGraph made).Adj x y ↔
    x ≠ y ∧ ((∃ n, y = .net n ∧ (x, n) ∈ made) ∨ ∃ n, x = .net n ∧ (y, n) ∈ made) :=
  SimpleGraph.fromRel_adj _ x y

theorem linkGraph_mono {more : List (Tie × NetId)} (h : ∀ e ∈ made, e ∈ more) :
    linkGraph made ≤ linkGraph more := by
  intro x y hadj
  obtain ⟨hne, hlink⟩ := linkGraph_adj.1 hadj
  refine linkGraph_adj.2 ⟨hne, ?_⟩
  rcases hlink with ⟨n, hn, hmem⟩ | ⟨n, hn, hmem⟩
  · exact .inl ⟨n, hn, h _ hmem⟩
  · exact .inr ⟨n, hn, h _ hmem⟩

/-- A link connects its ends. -/
theorem reachable_of_mem {x : Tie} {n : NetId} (h : (x, n) ∈ made) :
    (linkGraph made).Reachable x (.net n) := by
  by_cases hne : x = .net n
  · rw [hne]
  · exact SimpleGraph.Adj.reachable (linkGraph_adj.2 ⟨hne, .inl ⟨n, rfl, h⟩⟩)

theorem Homes.place_of_adj (h : b.Homes made home) {x y : Tie} (hadj : (linkGraph made).Adj x y) :
    ∃ m, b.place home x = some m ∧ b.place home y = some m := by
  obtain ⟨-, ⟨n, rfl, hmem⟩ | ⟨n, rfl, hmem⟩⟩ := linkGraph_adj.1 hadj
  · exact h.agree _ _ hmem
  · obtain ⟨m, hy, hx⟩ := h.agree _ _ hmem
    exact ⟨m, hx, hy⟩

/-- What is connected has come to the same net. -/
theorem Homes.place_of_reachable (h : b.Homes made home) {x y : Tie}
    (hr : (linkGraph made).Reachable x y) : b.place home x = b.place home y := by
  obtain ⟨walk⟩ := hr
  induction walk with
  | nil => rfl
  | cons hadj _ ih =>
    obtain ⟨m, hx, hy⟩ := h.place_of_adj hadj
    rw [hx, ← ih, hy]

theorem made_of_place {x : Tie} {m : NetId} (h : b.place home x = some m) : b.Made x := by
  cases x with
  | pin p => exact lt_size_of_netOf? h
  | net n =>
    rw [place] at h
    split at h
    · assumption
    · cases h

theorem Homes.place_of_live (h : b.Homes made home) {n : NetId} {net : Net}
    (hn : b.net? n = some net) : b.place home (.net n) = some n := by
  rw [place, if_pos (lt_size_of_net? hn), h.fixed n net hn]

/-- With a home for every net, the live nets are the components. -/
theorem Homes.netsAreComponents (h : b.Homes made home) (hnets : b.NetsAgree) :
    b.NetsAreComponents (linkGraph made) where
  made_of_adj x y hadj := by
    obtain ⟨m, hx, -⟩ := h.place_of_adj hadj
    exact made_of_place hx
  same_net_iff p q hne := by
    constructor
    · rintro ⟨n, hp, hq⟩
      exact (h.reach (.pin p) n hp).trans (h.reach (.pin q) n hq).symm
    · intro hr
      -- the first edge of a walk shows that the pin is on a net at all
      obtain ⟨walk⟩ := hr
      cases walk with
      | nil => exact absurd rfl hne
      | cons hadj rest =>
        obtain ⟨m, hp, -⟩ := h.place_of_adj hadj
        refine ⟨m, hp, ?_⟩
        rw [← hp]
        exact (h.place_of_reachable (hadj.reachable.trans ⟨rest⟩)).symm
  no_net_iff p := by
    constructor
    · intro hp x hadj
      obtain ⟨m, hm, -⟩ := h.place_of_adj hadj
      rw [place, hp] at hm
      cases hm
    · intro hno
      cases hp : b.netOf? p with
      | none => rfl
      | some n =>
        obtain ⟨walk⟩ := h.reach (.pin p) n hp
        cases walk with
        | cons hadj _ => exact absurd hadj (hno _)
  live n hn := by
    obtain ⟨net, hlive⟩ := h.live n hn
    exact ⟨home n, net, hlive, h.reach _ _ (by rw [place, if_pos hn])⟩
  unique m m' net net' hm hm' hr := by
    have heq := h.place_of_reachable hr
    rw [h.place_of_live hm, h.place_of_live hm'] at heq
    exact Option.some.inj heq
  pins m net hm := by
    refine ⟨hnets.nodup m net hm, fun p => ?_⟩
    rw [hnets.mem_iff hm]
    constructor
    · exact fun hp => (h.reach (.pin p) m hp).symm
    · intro hr
      have heq := h.place_of_reachable hr
      rw [h.place_of_live hm] at heq
      exact heq.symm

/-! ### What changes keep -/

/-- A change after which the same nets are live. -/
theorem Housed.congr (h : b.Housed home) (hsize : b'.nets.size = b.nets.size)
    (hlive : ∀ n, (b'.net? n).isSome = (b.net? n).isSome) : b'.Housed home where
  live n hn := by
    rw [← Option.isSome_iff_exists, hlive, Option.isSome_iff_exists]
    exact h.live n (hsize ▸ hn)
  fixed n net hn := by
    have hsome : (b.net? n).isSome := by rw [← hlive, hn]; rfl
    obtain ⟨net', hn'⟩ := Option.isSome_iff_exists.1 hsome
    exact h.fixed n net' hn'
  above n hn := h.above n (hsize ▸ hn)

theorem Homes.congr (h : b.Homes made home) (same : SameNets b b') : b'.Homes made home := by
  have hplace : ∀ x, b'.place home x = b.place home x := by
    intro x
    cases x with
    | pin p => exact same.netOf?_eq p
    | net n => rw [place, place, same.size_eq]
  exact {
    toHoused := h.toHoused.congr same.size_eq same.isSome_eq
    agree := by simpa only [hplace] using h.agree
    reach := by simpa only [hplace] using h.reach }

/-- A new net is its own home. -/
theorem Housed.putNet (h : b.Housed home) (name : Option String) :
    (b.putNet name).Housed home where
  live n hn := by
    have hn : n < b.nets.size + 1 := by simpa [Build.putNet] using hn
    rw [putNet_net?]
    rcases Nat.lt_succ_iff_lt_or_eq.1 hn with hlt | heq
    · obtain ⟨net, hlive⟩ := h.live n hlt
      rw [if_neg (Nat.ne_of_lt (lt_size_of_net? hlive))]
      exact ⟨net, hlive⟩
    · rw [heq, h.above _ (Nat.le_refl _), if_pos rfl]
      exact ⟨_, rfl⟩
  fixed n net hn := by
    rw [putNet_net?] at hn
    split at hn
    · next heq => exact h.above n (Nat.le_of_eq heq.symm)
    · exact h.fixed n net hn
  above n hn := by
    have hn : b.nets.size + 1 ≤ n := by simpa [Build.putNet] using hn
    exact h.above n (Nat.le_of_succ_le hn)

theorem Homes.putNet (h : b.Homes made home) (name : Option String) :
    (b.putNet name).Homes made home := by
  have hsize : (b.putNet name).nets.size = b.nets.size + 1 := by simp [Build.putNet]
  have hplace : ∀ x, x ≠ .net b.nets.size → (b.putNet name).place home x = b.place home x := by
    intro x hx
    cases x with
    | pin p => rfl
    | net n =>
      have hn : n ≠ b.nets.size := fun heq => hx (heq ▸ rfl)
      have hlt : n < b.nets.size + 1 ↔ n < b.nets.size :=
        Nat.lt_succ_iff_lt_or_eq.trans (or_iff_left hn)
      simp only [place, hsize, hlt]
  have hnew : (b.putNet name).place home (.net b.nets.size) = some b.nets.size := by
    rw [place, hsize, if_pos (Nat.lt_succ_self _), h.above _ (Nat.le_refl _)]
  have hold : b.place home (.net b.nets.size) = none := if_neg (Nat.lt_irrefl _)
  constructor
  case toHoused => exact h.toHoused.putNet name
  case agree =>
    intro x n hmem
    obtain ⟨m, hx, hn⟩ := h.agree x n hmem
    -- no link is to the new net, for its ends would have come somewhere
    have hne : ∀ y, b.place home y = some m → y ≠ .net b.nets.size := by
      rintro y hy rfl
      rw [hold] at hy
      cases hy
    exact ⟨m, (hplace x (hne x hx)).trans hx, (hplace _ (hne _ hn)).trans hn⟩
  case reach =>
    intro x m hx
    by_cases heq : x = .net b.nets.size
    · rw [heq, hnew] at hx
      cases hx
      rw [heq]
    · exact h.reach x m ((hplace x heq).symm.trans hx)

/-- A link between what has come to one net adds nothing. -/
theorem Homes.link (h : b.Homes made home) {x : Tie} {n m : NetId}
    (hx : b.place home x = some m) (hn : b.place home (.net n) = some m) :
    b.Homes (made ++ [(x, n)]) home := by
  refine { h with agree := ?_, reach := ?_ }
  · intro y k hmem
    rcases List.mem_append.1 hmem with hmem | hmem
    · exact h.agree y k hmem
    · cases List.mem_singleton.1 hmem
      exact ⟨m, hx, hn⟩
  · intro y k hy
    exact (h.reach y k hy).mono (linkGraph_mono fun e he => List.mem_append_left _ he)

/-- A pin that is put on a net is linked to it. -/
theorem Homes.attach (h : b.Homes made home) {net : NetId} {pin : PinId} {n : Net} {p : Pin}
    (live : b.net? net = some n) (known : b.pins[pin]? = some p) (free : p.net = none) :
    (b.attach net pin).Homes (made ++ [(.pin pin, net)]) home := by
  have hfree : b.place home (.pin pin) = none := (netOf?_of_pin known).trans free
  have hplace : ∀ x, x ≠ .pin pin → (b.attach net pin).place home x = b.place home x := by
    intro x hx
    cases x with
    | pin q =>
      have hq : pin ≠ q := fun heq => hx (heq ▸ rfl)
      rw [place, place, attach_netOf?, if_neg hq]
    | net n => rw [place, place, attach_nets_size]
  have hpin : (b.attach net pin).place home (.pin pin) = some net := by
    rw [place, attach_netOf?, if_pos rfl, known]
    rfl
  -- what had come to a net was not this pin, and stays where it is
  have hkeep : ∀ x m, b.place home x = some m → (b.attach net pin).place home x = some m := by
    intro x m hx
    refine (hplace x ?_).trans hx
    rintro rfl
    rw [hfree] at hx
    cases hx
  have hmono : linkGraph made ≤ linkGraph (made ++ [(.pin pin, net)]) :=
    linkGraph_mono fun e he => List.mem_append_left _ he
  have hlive : ∀ k, ((b.attach net pin).net? k).isSome = (b.net? k).isSome := fun k => by
    rw [attach_net?]
    split <;> simp
  constructor
  case toHoused => exact h.toHoused.congr (attach_nets_size ..) hlive
  case agree =>
    intro x k hmem
    rcases List.mem_append.1 hmem with hmem | hmem
    · obtain ⟨m, hx, hk⟩ := h.agree x k hmem
      exact ⟨m, hkeep x m hx, hkeep _ m hk⟩
    · cases List.mem_singleton.1 hmem
      exact ⟨net, hpin, hkeep _ _ (h.place_of_live live)⟩
  case reach =>
    intro x m hx
    by_cases heq : x = .pin pin
    · rw [heq, hpin] at hx
      cases hx
      rw [heq]
      exact reachable_of_mem (List.mem_append_right _ List.mem_cons_self)
    · exact (h.reach x m ((hplace x heq).symm.trans hx)).mono hmono

/-- When a net is moved into another one, that one is the home of all that had the
moved one as their home. -/
theorem Housed.absorb (h : b.Housed home) {net source : NetId} {n r : Net} (ne : net ≠ source)
    (live : b.net? net = some n) (other : b.net? source = some r) :
    (b.absorb net source r).Housed fun k => moved net source (home k) where
  live k hk := by
    rw [absorb_nets_size] at hk
    rw [absorb_net? b ne]
    by_cases hhome : home k = source
    · rw [hhome, moved_self, if_neg (Ne.symm ne), if_pos rfl, live]
      exact ⟨_, rfl⟩
    · obtain ⟨x, hx⟩ := h.live k hk
      rw [moved_of_ne net hhome, if_neg (Ne.symm hhome), hx]
      split <;> exact ⟨_, rfl⟩
  fixed k x hk := by
    rw [absorb_net? b ne] at hk
    by_cases hs : source = k
    · rw [if_pos hs] at hk
      cases hk
    rw [if_neg hs] at hk
    have hhome : home k = k := by
      cases hb : b.net? k with
      | none =>
        rw [hb] at hk
        split at hk <;> cases hk
      | some y => exact h.fixed k y hb
    rw [hhome, moved_of_ne net (Ne.symm hs)]
  above k hk := by
    rw [absorb_nets_size] at hk
    have hne : k ≠ source := Nat.ne_of_gt (Nat.lt_of_lt_of_le (lt_size_of_net? other) hk)
    rw [h.above k hk, moved_of_ne net hne]

/-- When a net is moved into another one, whatever had come to it comes along. -/
theorem Homes.absorb (h : b.Homes made home) (hnets : b.NetsAgree) {net source : NetId}
    {n r : Net} (ne : net ≠ source) (live : b.net? net = some n)
    (other : b.net? source = some r) {target : Tie} (on : b.place home target = some source) :
    (b.absorb net source r).Homes (made ++ [(target, net)])
      fun k => moved net source (home k) := by
  let home' : NetId → NetId := fun k => moved net source (home k)
  have hplace : ∀ x, (b.absorb net source r).place home' x =
      (b.place home x).map (moved net source) := by
    intro x
    cases x with
    | pin p => exact hnets.absorb_netOf? other p
    | net k =>
      rw [place, place, absorb_nets_size]
      split <;> rfl
  have hmono : linkGraph made ≤ linkGraph (made ++ [(target, net)]) :=
    linkGraph_mono fun e he => List.mem_append_left _ he
  constructor
  case toHoused => exact h.toHoused.absorb ne live other
  case agree =>
    intro x k hmem
    change ∃ m, Build.place _ home' x = some m ∧ Build.place _ home' (.net k) = some m
    rw [hplace, hplace]
    rcases List.mem_append.1 hmem with hmem | hmem
    · obtain ⟨m, hx, hk⟩ := h.agree x k hmem
      exact ⟨_, by rw [hx, Option.map_some], by rw [hk, Option.map_some]⟩
    · cases List.mem_singleton.1 hmem
      refine ⟨net, by rw [on, Option.map_some, moved_self], ?_⟩
      rw [h.place_of_live live, Option.map_some, moved_of_ne net ne]
  case reach =>
    intro x m hx
    change Build.place _ home' x = some m at hx
    rw [hplace] at hx
    obtain ⟨k, hk, hm⟩ := Option.map_eq_some_iff.1 hx
    have hxk := (h.reach x k hk).mono hmono
    by_cases hks : k = source
    · rw [hks, moved_self] at hm
      subst hm hks
      -- what had come to the old net is connected to the target, and that to the new net
      exact hxk.trans (((h.reach target k on).mono hmono).symm.trans
        (reachable_of_mem (List.mem_append_right _ List.mem_cons_self)))
    · rw [moved_of_ne net hks] at hm
      exact hm ▸ hxk

/-! ### What ties do -/

theorem Tied.live {net : NetId} {target : Tie} (t : Tied b net target b') :
    ∃ n, b.net? net = some n := by
  cases t with
  | same live on => exact ⟨_, live⟩
  | attach live known free unmarked room => exact ⟨_, live⟩
  | absorb live on ne unmarked other room => exact ⟨_, live⟩

/-- A net that something is tied to stays live. -/
theorem Tied.live_after {net : NetId} {target : Tie} (t : Tied b net target b') :
    ∃ n, b'.net? net = some n := by
  cases t with
  | same live on => exact ⟨_, live⟩
  | attach live known free unmarked room => exact ⟨_, by rw [attach_net?, if_pos rfl, live]; rfl⟩
  | absorb live on ne unmarked other room =>
    exact ⟨_, by rw [absorb_net? b ne, if_neg (Ne.symm ne), if_pos rfl, live]; rfl⟩

theorem Homes.place_of_netOfTie? (h : b.Homes made home) {x : Tie} {m : NetId} {net : Net}
    (on : b.netOfTie? x = some m) (live : b.net? m = some net) : b.place home x = some m := by
  cases x with
  | pin p => exact on
  | net n =>
    cases on
    exact h.place_of_live live

/-- A tie links its target to the net. -/
theorem homes_tied (h : b.Homes made home) (hnets : b.NetsAgree) {net : NetId} {target : Tie}
    (t : Tied b net target b') : ∃ home', b'.Homes (made ++ [(target, net)]) home' := by
  cases t with
  | same live on =>
    exact ⟨home, h.link (h.place_of_netOfTie? on live) (h.place_of_live live)⟩
  | attach live known free unmarked room => exact ⟨home, h.attach live known free⟩
  | absorb live on ne unmarked other room =>
    exact ⟨_, h.absorb hnets ne live other (h.place_of_netOfTie? on other)⟩

/-- Tying two pins links both to the net that they end up on. -/
theorem homes_tiePins (h : b.Homes made home) (hnets : b.NetsAgree) {first second : PinId}
    {net : NetId} (ok : tiePins first second b = .ok net b') :
    ∃ home', b'.Homes (made ++ linked [first, second] net) home' := by
  have hlinks : made ++ linked [first, second] net =
      made ++ [(.pin first, net)] ++ [(.pin second, net)] := by simp [linked]
  rw [hlinks]
  cases tiePins_ok ok with
  | first on tied =>
    obtain ⟨n, hn⟩ := tied.live
    exact homes_tied (h.link (x := .pin first) on (h.place_of_live hn)) hnets tied
  | second free on tied =>
    -- the first pin is attached to the net of the second, whose link then adds nothing
    obtain ⟨home', h'⟩ := homes_tied h hnets tied
    obtain ⟨n, hn⟩ := tied.live_after
    obtain ⟨rfl, -⟩ := attach_of_tied tied free
    have hne : first ≠ second := by
      rintro rfl
      rw [free] at on
      cases on
    refine ⟨home', h'.link ?_ (h'.place_of_live hn)⟩
    rw [place, attach_netOf?, if_neg hne, on]
  | fresh new one two =>
    obtain ⟨home₁, h₁⟩ := homes_tied (h.putNet none) (hnets.putNet none) one
    exact homes_tied h₁ ((hnets.putNet none).chain (growth_of_tied one)) two

theorem Homes.pin (h : b.Homes made home) {component : ComponentId} {key : String} {p : PinId}
    (ok : Build.pin component key b = .ok p b') : b'.Homes made home := by
  obtain ⟨c, -, ⟨-, rfl⟩ | ⟨-, -, rfl⟩⟩ := pin_ok_iff.1 ok
  · exact h
  · exact h.congr (sameNets_putPin ..)

theorem sameNets_withMarker (p : Pin) (reason : Option String) :
    SameNets b (b.withMarker p reason) := by
  let b₁ := b.putComponent (b.markerSpec p reason)
  calc SameNets b b₁ := sameNets_putComponent _
    SameNets _ (b₁.setMarker b.components.size) := .of_eq rfl rfl
    SameNets _ (b.withMarker p reason) := sameNets_putPin ..

theorem Tied.components {net : NetId} {target : Tie} (t : Tied b net target b') :
    b'.components = b.components := by
  cases t with
  | same live on => rfl
  | attach live known free unmarked room => rfl
  | absorb live on ne unmarked other room => exact absorb_components ..

theorem components_of_tiePins {first second : PinId} {net : NetId}
    (ok : tiePins first second b = .ok net b') : b'.components = b.components := by
  cases tiePins_ok ok with
  | first on tied => exact tied.components
  | second free on tied => exact tied.components
  | fresh new one two => exact two.components.trans one.components

theorem MarkerTied.components {target markerPin : PinId} {p : Pin} {net : NetId}
    (h : MarkerTied b target markerPin p net b') : b'.components = b.components := by
  cases h with
  | beside on tied => exact tied.components
  | together free tied => exact components_of_tiePins tied

/-- Tying a marker links it, and the pin that it marks, to the net. -/
theorem homes_markerTied (h : b.Homes made home) (hnets : b.NetsAgree) {target markerPin : PinId}
    {p : Pin} {net : NetId} (hp : b.netOf? target = p.net)
    (t : MarkerTied b target markerPin p net b') :
    ∃ home', b'.Homes (made ++ linked [target, markerPin] net) home' := by
  cases t with
  | together free tied => exact homes_tiePins h hnets tied
  | beside on tied =>
    obtain ⟨n, hlive⟩ := tied.live
    -- the pin is on the net already, so that its link adds nothing
    have hlink := h.link (x := .pin target) (hp.trans on) (h.place_of_live hlive)
    obtain ⟨home', h'⟩ := homes_tied hlink hnets tied
    exact ⟨home', by simpa [linked] using h'⟩

/-- A marker and the pin that it marks are linked to the net that they end up on. -/
theorem homes_markNoConnect (h : b.Homes made home) (hnets : b.NetsAgree) {target : PinId}
    {reason : Option String} {marker : ComponentId}
    (ok : markNoConnect target reason b = .ok marker b') :
    ∃ home' net, b'.netOf? target = some net ∧
      b'.Homes (made ++ linked (target :: (b'.tableOf marker).ids) net) home' := by
  obtain ⟨p, b₁, net, hp, -, rfl, rfl, htied⟩ := markNoConnect_ok ok
  have hids : ((b₁.setNoConnect target).tableOf b.components.size).ids = [b.pins.size] := by
    change (b₁.tableOf b.components.size).ids = _
    simp [tableOf, htied.components, withMarker_components, ComponentSpec.component]
  have hnets₁ : (b.withMarker p reason).NetsAgree := hnets.chain (growth_withMarker p reason)
  have hnet : (b.withMarker p reason).netOf? target = p.net := by
    rw [withMarker_netOf?, netOf?_of_pin hp]
  obtain ⟨home', h'⟩ := homes_markerTied (h.congr (sameNets_withMarker p reason)) hnets₁ hnet htied
  refine ⟨home', net, ?_, ?_⟩
  · rw [setNoConnect_netOf?, (htied.ends hp).1]
  · rw [hids]
    exact h'.congr (sameNets_setNoConnect target)

theorem homes_connect (h : b.Homes made home) (hnets : b.NetsAgree) {component : ComponentId}
    {key : String} {target : Tie} {net : NetId} (ok : connect component key target b = .ok net b') :
    ∃ home', b'.Homes
      (made ++ linked ((b.keyed? component key).toList ++ target.pins) net) home' := by
  obtain ⟨p, b₁, hpin, ⟨rfl, htied⟩ | ⟨other, rfl, hties⟩⟩ := connect_ok ok
  · rw [keyed?_eq_some.2 ⟨_, hpin⟩]
    exact homes_tied (h.pin hpin) (hnets.chain (growth_of_pin hpin)) htied
  · rw [keyed?_eq_some.2 ⟨_, hpin⟩]
    exact homes_tiePins (h.pin hpin) (hnets.chain (growth_of_pin hpin)) hties

/-- An operation that is carried out and does not start again makes its links, and after
it every net has a home. -/
theorem homes_perform (h : b.Homes made home) (hnets : b.NetsAgree) {op : Operation α}
    {a : Answer α} (hop : op.restarts = false) (ok : op.perform b = .ok a b') :
    ∃ home', b'.Homes (made ++ b.links op) home' := by
  -- most operations make no links and leave the homes alone
  have quiet : b.links op = [] → b'.Homes made home →
      ∃ home', b'.Homes (made ++ b.links op) home' :=
    fun hlinks h' => ⟨home, by rwa [hlinks, List.append_nil]⟩
  cases op with
  | addComponent spec =>
    obtain ⟨id, ok, -⟩ := map_ok_iff.1 ok
    obtain ⟨-, -, rfl⟩ := addComponent_ok_iff.1 ok
    exact quiet rfl (h.congr (sameNets_putComponent spec))
  | addComposable name parent position =>
    obtain ⟨id, ok, -⟩ := map_ok_iff.1 ok
    obtain ⟨-, -, rfl⟩ := addComposable_ok_iff.1 ok
    exact quiet rfl (h.congr (sameNets_putComposable name parent position))
  | addNet name =>
    cases ok
    exact quiet rfl (h.putNet name)
  | setPower net power =>
    obtain ⟨_, ok, -⟩ := map_ok_iff.1 ok
    obtain ⟨-, rfl⟩ := changeNet_ok_iff.1 ok
    exact quiet rfl (h.congr (sameNets_power net power))
  | setNumbering numbering =>
    cases ok
    exact quiet rfl (h.congr (.of_eq rfl rfl))
  | pin component key =>
    obtain ⟨id, ok, -⟩ := map_ok_iff.1 ok
    exact quiet rfl (h.pin ok)
  | connect component key target =>
    obtain ⟨net, ok', rfl⟩ := map_ok_iff.1 ok
    simp only [links, ok]
    exact homes_connect h hnets ok'
  | tie net target =>
    obtain ⟨_, ok', -⟩ := map_ok_iff.1 ok
    simp only [links, ok]
    exact homes_tied h hnets (tie_ok_iff.1 ok')
  | tiePins first second =>
    obtain ⟨net, ok', rfl⟩ := map_ok_iff.1 ok
    simp only [links, ok]
    exact homes_tiePins h hnets ok'
  | markNoConnect target reason =>
    obtain ⟨marker, ok', rfl⟩ := map_ok_iff.1 ok
    obtain ⟨home', net, hnet, h'⟩ := homes_markNoConnect h hnets ok'
    refine ⟨home', ?_⟩
    simpa [links, ok, hnet] using h'
  | expose composable name net =>
    obtain ⟨_, ok, -⟩ := map_ok_iff.1 ok
    obtain ⟨-, -, rfl⟩ := expose_ok ok
    exact quiet rfl (h.congr (.of_eq rfl rfl))
  | interface composable =>
    obtain ⟨i, ok, -⟩ := map_ok_iff.1 ok
    rcases interface_ok ok with rfl | rfl
    · exact quiet rfl h
    · exact quiet rfl (h.congr (.of_eq rfl rfl))
  | start => cases hop
  | drain => cases hop

theorem links_of_error {op : Operation α} {e : ConnectError} (h : op.perform b = .error e b') :
    b.links op = [] := by
  cases op <;> simp [links, h]

/-- A refused operation makes no links. -/
theorem homes_after (h : b.Homes made home) (hnets : b.NetsAgree) {op : Operation α}
    (hop : op.restarts = false) : ∃ home', (b.after op).Homes (made ++ b.links op) home' := by
  cases hperform : op.perform b with
  | ok a b' =>
    rw [after_of_ok hperform]
    exact homes_perform h hnets hop hperform
  | error e b' =>
    rw [links_of_error hperform, List.append_nil, after_of_error hperform]
    cases op with
    | connect component key target =>
      rw [← perform_connect_error hperform]
      cases hpin : (Operation.pin component key).perform b with
      | ok a b₁ =>
        obtain ⟨p, hpin', -⟩ := map_ok_iff.1 hpin
        exact ⟨home, after_of_ok hpin ▸ h.pin hpin'⟩
      | error e₁ b₁ => exact ⟨home, by rwa [after_of_error hpin, ← perform_error rfl hpin]⟩
    | _ => exact ⟨home, perform_error rfl hperform ▸ h⟩

theorem homes_cleared (b : Build α) : b.cleared.Homes [] id where
  live n hn := absurd hn (Nat.not_lt_zero n)
  fixed _ _ _ := rfl
  above _ _ := rfl
  agree _ _ hmem := by cases hmem
  reach x m hx := by
    cases x with
    | pin p => cases hx
    | net n => cases hx

/-- After every run every net has a home. -/
theorem homes_history (ops : List (Operation α)) (h : b.Homes made home) (hnets : b.NetsAgree) :
    ∃ home', (b.run ops).Homes (b.history made ops) home' := by
  -- the induction carries the links made so far, and starting again forgets them
  induction ops generalizing b made home with
  | nil => exact ⟨home, h⟩
  | cons op ops ih =>
    rw [run_cons, history]
    cases hop : op.restarts with
    | true =>
      rw [after_of_restarts hop]
      exact ih (homes_cleared b) (netsAgree_cleared b)
    | false =>
      obtain ⟨home₁, h₁⟩ := homes_after h hnets hop
      exact ih h₁ (hnets.chain (growth_after hop))

/-! ### Merges -/

theorem length_liveNets (b : Build α) :
    b.liveNets.length = (b.nets.map Option.isSome).countP id := by
  rw [liveNets, List.length_filterMap_eq_countP, Array.countP_map, ← Array.countP_toList]
  rfl

theorem isSome_nets_modifyNet (net : NetId) (f : Net → Net) :
    (b.modifyNet net f).nets.map Option.isSome = b.nets.map Option.isSome := by
  apply Array.ext_getElem?
  intro i
  simp only [modifyNet, Array.getElem?_map, Array.getElem?_modify]
  split <;> simp [Function.comp_def]

/-- Retiring a live net leaves one live net less. -/
theorem length_liveNets_retire {net : NetId} {n : Net} (live : b.net? net = some n) :
    (b.retire net).liveNets.length + 1 = b.liveNets.length := by
  have hlt := lt_size_of_net? live
  have hsome : b.nets[net].isSome = true := by
    have hget := net?_eq_some.1 live
    rw [Array.getElem?_eq_getElem hlt] at hget
    rw [Option.some.inj hget]
    rfl
  -- the slot is counted, so that taking one away does not stop at zero
  have hpos := Array.boole_getElem_le_countP (p := Option.isSome) hlt
  rw [hsome, if_pos rfl] at hpos
  rw [length_liveNets, length_liveNets, retire, Array.setIfInBounds, dif_pos hlt,
    Array.countP_map, Array.countP_map]
  change Array.countP Option.isSome _ + 1 = Array.countP Option.isSome _
  rw [Array.countP_set, hsome]
  simp
  omega

/-- Moving a net into another one leaves one live net less. -/
theorem length_liveNets_absorb (into : NetId) {source : NetId} {r : Net}
    (other : b.net? source = some r) :
    (b.absorb into source r).liveNets.length + 1 = b.liveNets.length := by
  rw [← length_liveNets_retire other, length_liveNets, length_liveNets, absorb_eq]
  exact congrArg (fun xs => Array.countP id xs + 1) (isSome_nets_modifyNet into _)

/-- A tie of what is on another net makes one net of the two. -/
theorem tie_merges {into source : NetId} {target : Tie} {r : Net} {u : Unit}
    (on : b.netOfTie? target = some source) (ne : into ≠ source)
    (other : b.net? source = some r) (ok : tie into target b = .ok u b') :
    b' = b.absorb into source r := by
  cases tie_ok_iff.1 ok with
  | same live' on' =>
    rw [on] at on'
    exact absurd (Option.some.inj on').symm ne
  | attach live' known free unmarked room =>
    rw [netOfTie?, netOf?_of_pin known, free] at on
    cases on
  | absorb live' on' ne' unmarked other' room =>
    rw [on] at on'
    cases on'
    rw [other] at other'
    cases other'
    rfl

/-- A tie of what is on another live net leaves one net with the pins of both, and one live
net less. -/
def MergesNets (b : Build α) : Prop :=
  ∀ into source target n r b', into ≠ source → b.net? into = some n → b.net? source = some r →
    b.netOfTie? target = some source → tie into target b = .ok ⟨⟩ b' →
      (∃ x, b'.net? into = some x ∧ x.pins = n.pins ++ r.pins) ∧ b'.net? source = none ∧
        b'.liveNets.length + 1 = b.liveNets.length

/-- After every run the live nets are the connected components of the links made since
the circuit was last started, and a tie merges two of them. -/
theorem netsAreComponents_run (name : String) (ops : List (Operation α)) :
    ((new name).run ops).NetsAreComponents (linkGraph ((new name : Build α).history [] ops)) ∧
      ((new name).run ops).MergesNets := by
  constructor
  · obtain ⟨home, h⟩ := homes_history ops (homes_cleared (new name)) (netsAgree_cleared _)
    exact h.netsAreComponents (netsAgree_run name ops)
  · intro into source target n r b' ne live other on ok
    rw [tie_merges on ne other ok]
    refine ⟨⟨n.absorb r, ?_, rfl⟩, ?_, length_liveNets_absorb into other⟩
    · rw [absorb_net? _ ne, if_neg (Ne.symm ne), if_pos rfl, live]
      rfl
    · rw [absorb_net? _ ne, if_pos rfl]

/-- Two nets with a pin each. -/
def twoNets : List (Operation Int) :=
  [.addComponent { symbol := "Device:R", reference := "R1" },
    .addComponent { symbol := "Device:R", reference := "R2" }, .addNet none, .addNet none,
    .connect 0 "1" (.net 0), .connect 1 "1" (.net 1)]

/-- The second net is tied to the first: their pins are connected, and the first net has
them all. -/
theorem twoNets_merged :
    (linkGraph ((new "two nets").history [] (twoNets ++ [.tie 0 (.net 1)]))).Reachable
        (.pin 0) (.pin 1) ∧
      ∃ b', tie 0 (.net 1) ((new "two nets").run twoNets) = .ok ⟨⟩ b' ∧
        (∃ x, b'.net? 0 = some x ∧ x.pins = [0] ++ [1]) ∧ b'.net? 1 = none ∧
          b'.liveNets.length + 1 = 2 := by
  constructor
  · have h := (netsAreComponents_run "two nets" (twoNets ++ [.tie 0 (.net 1)])).1
    exact (h.same_net_iff 0 1 (by decide)).1 ⟨0, rfl, rfl⟩
  · obtain ⟨b', ok⟩ : ∃ b', tie 0 (.net 1) ((new "two nets").run twoNets) = .ok ⟨⟩ b' := ⟨_, rfl⟩
    exact ⟨b', ok, (netsAreComponents_run "two nets" twoNets).2 0 1 (.net 1)
      ⟨0, none, [0], false⟩ ⟨1, none, [1], false⟩ b' (by decide) rfl rfl rfl ok⟩

end Build

end Schematic
