import Schematic.Proofs.Circuit.Views
import Schematic.Proofs.Steps

/-!
# What the operations on a circuit under construction answer

Each operation is described by when it succeeds and what the circuit is then, as
one equivalence; and a refused operation leaves the circuit as it was, except
that tying by key keeps the pin it made.

## Main definitions

* `Build.Tied`, `Build.PinsTied`, `Build.MarkerTied` — what a tie does to a circuit,
  and what follows when two pins or a marker are tied.

## Main statements

* `Build.tie_ok_iff` — a tie succeeds exactly when the pin or net is there
  already, is attached or brings its net along.
* `Build.tie_error`, `Build.tiePins_error`, `Build.markNoConnect_error` — a
  refusal changes nothing.
-/

namespace Schematic

namespace Build

variable {α β γ : Type}

/-! ### Sequences of steps -/

section Steps

variable {x : BuildM α β} {f : β → BuildM α γ} {b b' : Build α} {e : ConnectError}

theorem bind_ok_iff {v : γ} :
    (x >>= f) b = .ok v b' ↔ ∃ a b₁, x b = .ok a b₁ ∧ f a b₁ = .ok v b' :=
  stateful_bind_ok_iff

theorem bind_error_iff :
    (x >>= f) b = .error e b' ↔
      x b = .error e b' ∨ ∃ a b₁, x b = .ok a b₁ ∧ f a b₁ = .error e b' :=
  stateful_bind_error_iff

theorem bind_of_ok {a : β} {b₁ : Build α} (h : x b = .ok a b₁) : (x >>= f) b = f a b₁ :=
  stateful_bind_of_ok h

@[simp] theorem pure_apply (v : β) : (pure v : BuildM α β) b = .ok v b := rfl

@[simp] theorem throw_apply : (throw e : BuildM α β) b = .error e b := rfl

@[simp] theorem modify_apply (g : Build α → Build α) :
    (modify g : BuildM α PUnit) b = .ok ⟨⟩ (g b) := rfl

@[simp] theorem get_bind_apply (f : Build α → BuildM α γ) : (get >>= f) b = f b b := rfl

@[simp] theorem modify_bind_apply (g : Build α → Build α) (f : PUnit → BuildM α γ) :
    (modify g >>= f) b = f ⟨⟩ (g b) := rfl

theorem map_ok_iff {g : β → γ} {v : γ} :
    (g <$> x) b = .ok v b' ↔ ∃ a, x b = .ok a b' ∧ g a = v := by
  change EStateM.map g x b = _ ↔ _
  unfold EStateM.map
  cases x b with
  | ok a b₁ =>
    constructor
    · rintro ⟨⟩; exact ⟨a, rfl, rfl⟩
    · rintro ⟨_, ⟨⟩, rfl⟩; rfl
  | error e b₁ => simp

theorem map_error_iff {g : β → γ} :
    (g <$> x) b = .error e b' ↔ x b = .error e b' := by
  change EStateM.map g x b = _ ↔ _
  unfold EStateM.map
  cases x b <;> simp

theorem tryCatch_bind_apply (undo : ConnectError → BuildM α β) :
    (tryCatch x undo >>= f) b =
      match x b with
      | .ok v b₁ => f v b₁
      | .error e b₁ => (undo e >>= f) b₁ := by
  change EStateM.bind (EStateM.tryCatch x undo) f b = _
  unfold EStateM.bind EStateM.tryCatch
  cases x b <;> rfl

end Steps

variable {b b' : Build α} {e : ConnectError}

/-! ### Looking things up -/

theorem liveNet_ok_iff {n : NetId} {net : Net} :
    liveNet n b = .ok net b' ↔ b.net? n = some net ∧ b = b' := by
  simp only [liveNet, get_bind_apply, net?_eq_some]
  rcases h : b.nets[n]? with _ | _ | _ <;> simp

theorem liveNet_error {n : NetId} (h : liveNet n b = .error e b') : b = b' := by
  simp only [liveNet, get_bind_apply] at h
  rcases hn : b.nets[n]? with _ | _ | _ <;> simp_all

theorem liveNet_missing {n : NetId} (h : b.net? n = none) : ∃ e, liveNet n b = .error e b := by
  simp only [net?, liveNet, get_bind_apply] at h ⊢
  rcases hn : b.nets[n]? with _ | _ | _ <;> simp_all

theorem knownPin_ok_iff {p : PinId} {pin : Pin} :
    knownPin p b = .ok pin b' ↔ b.pins[p]? = some pin ∧ b = b' := by
  simp only [knownPin, get_bind_apply]
  cases h : b.pins[p]? <;> simp

theorem knownPin_error {p : PinId} (h : knownPin p b = .error e b') :
    b.pins[p]? = none ∧ b = b' := by
  simp only [knownPin, get_bind_apply] at h
  cases hp : b.pins[p]? <;> simp_all

theorem knownComposable_ok_iff {id : ComposableId} {c : Composable α} :
    knownComposable id b = .ok c b' ↔ b.composables[id]? = some c ∧ b = b' := by
  simp only [knownComposable, get_bind_apply]
  cases h : b.composables[id]? <;> simp

theorem knownComposable_error {id : ComposableId} (h : knownComposable id b = .error e b') :
    b = b' := by
  simp only [knownComposable, get_bind_apply] at h
  cases hc : b.composables[id]? <;> simp_all

theorem checkParent_ok_iff {parent : Option ComposableId} {u : Unit} :
    checkParent parent b = .ok u b' ↔
      (∀ id, parent = some id → id < b.composables.size) ∧ b = b' := by
  cases parent with
  | none => simp [checkParent]
  | some id =>
    simp only [checkParent, bind_ok_iff, knownComposable_ok_iff, pure_apply]
    constructor
    · rintro ⟨c, _, ⟨hc, rfl⟩, ⟨⟩⟩
      exact ⟨by rintro _ ⟨⟩; exact (Array.getElem?_eq_some_iff.1 hc).1, rfl⟩
    · rintro ⟨h, rfl⟩
      exact ⟨_, _, ⟨Array.getElem?_eq_getElem (h id rfl), rfl⟩, rfl⟩

theorem checkParent_error {parent : Option ComposableId}
    (h : checkParent parent b = .error e b') : b = b' := by
  cases parent with
  | none => simp [checkParent] at h
  | some id =>
    simp only [checkParent, bind_error_iff, pure_apply, reduceCtorEq, and_false, exists_false,
      or_false] at h
    exact knownComposable_error h

theorem checkCompatible_ok_iff {net : NetId} {pins : List PinId} {u : Unit} :
    checkCompatible net pins b = .ok u b' ↔ b.compatible pins = true ∧ b = b' := by
  simp only [checkCompatible, get_bind_apply]
  by_cases h : b.compatible pins = true <;> simp [h]

theorem checkCompatible_error {net : NetId} {pins : List PinId}
    (h : checkCompatible net pins b = .error e b') : b = b' := by
  simp only [checkCompatible, get_bind_apply] at h
  by_cases hc : b.compatible pins = true <;> simp_all

theorem checkConnectable_ok_iff {p : Pin} {u : Unit} :
    checkConnectable p b = .ok u b' ↔ p.noConnect = false ∧ b = b' := by
  cases h : p.noConnect <;> simp [checkConnectable, h]

theorem checkConnectable_error_iff {p : Pin} :
    checkConnectable p b = .error e b' ↔
      p.noConnect = true ∧ .alreadyNoConnect (b.pinLabel p) = e ∧ b = b' := by
  cases h : p.noConnect <;> simp [checkConnectable, h]

/-- Changing a net succeeds exactly when it is live. -/
theorem changeNet_ok_iff {net : NetId} {f : Net → Net} {u : Unit} :
    changeNet net f b = .ok u b' ↔ (∃ n, b.net? net = some n) ∧ b.modifyNet net f = b' := by
  simp only [changeNet, bind_ok_iff, liveNet_ok_iff, modify_apply]
  constructor
  · rintro ⟨n, _, ⟨hn, rfl⟩, ⟨⟩⟩
    exact ⟨⟨n, hn⟩, rfl⟩
  · rintro ⟨⟨n, hn⟩, rfl⟩
    exact ⟨n, b, ⟨hn, rfl⟩, rfl⟩

theorem changeNet_error {net : NetId} {f : Net → Net} (h : changeNet net f b = .error e b') :
    b.net? net = none ∧ b = b' := by
  simp only [changeNet, bind_error_iff, modify_apply, reduceCtorEq, and_false, exists_false,
    or_false] at h
  refine ⟨?_, liveNet_error h⟩
  cases hn : b.net? net with
  | none => rfl
  | some n => simp [liveNet_ok_iff.2 ⟨hn, rfl⟩] at h

/-! ### Construction -/

theorem addComponent_ok_iff {spec : ComponentSpec α} {id : ComponentId} :
    addComponent spec b = .ok id b' ↔
      (∀ parent, spec.parent = some parent → parent < b.composables.size) ∧
        b.components.size = id ∧ b.putComponent spec = b' := by
  simp only [addComponent, bind_ok_iff, checkParent_ok_iff, get_bind_apply, modify_bind_apply,
    pure_apply, EStateM.Result.ok.injEq]
  constructor
  · rintro ⟨_, _, ⟨h, rfl⟩, hid, hb⟩
    exact ⟨h, hid, hb⟩
  · rintro ⟨h, hid, hb⟩
    exact ⟨⟨⟩, b, ⟨h, rfl⟩, hid, hb⟩

theorem addComponent_error {spec : ComponentSpec α} (h : addComponent spec b = .error e b') :
    b = b' := by
  simp only [addComponent, bind_error_iff, get_bind_apply, modify_bind_apply, pure_apply,
    reduceCtorEq, and_false, exists_false, or_false] at h
  exact checkParent_error h

theorem addComposable_ok_iff {name : String} {parent : Option ComposableId}
    {position : Option (Placement α)} {id : ComposableId} :
    addComposable name parent position b = .ok id b' ↔
      (∀ p, parent = some p → p < b.composables.size) ∧
        b.composables.size = id ∧ b.putComposable name parent position = b' := by
  simp only [addComposable, bind_ok_iff, checkParent_ok_iff, get_bind_apply, modify_bind_apply,
    pure_apply, EStateM.Result.ok.injEq]
  constructor
  · rintro ⟨_, _, ⟨h, rfl⟩, hid, hb⟩
    exact ⟨h, hid, hb⟩
  · rintro ⟨h, hid, hb⟩
    exact ⟨⟨⟩, b, ⟨h, rfl⟩, hid, hb⟩

theorem addComposable_error {name : String} {parent : Option ComposableId}
    {position : Option (Placement α)} (h : addComposable name parent position b = .error e b') :
    b = b' := by
  simp only [addComposable, bind_error_iff, get_bind_apply, modify_bind_apply, pure_apply,
    reduceCtorEq, and_false, exists_false, or_false] at h
  exact checkParent_error h

@[simp] theorem addNet_apply (name : Option String) :
    addNet name b = .ok b.nets.size (b.putNet name) := rfl

/-- Asking for a pin finds the one with the key in its canonical form, or makes it. -/
theorem pin_ok_iff {component : ComponentId} {key : String} {id : PinId} :
    pin component key b = .ok id b' ↔
      ∃ c, b.components[component]? = some c ∧
        (c.pins.find? (b.canonicalKey c key) = some id ∧ b = b' ∨
          c.pins.find? (b.canonicalKey c key) = none ∧ b.pins.size = id ∧
            b.putPin component (b.canonicalKey c key) = b') := by
  simp only [pin, get_bind_apply]
  cases hc : b.components[component]? with
  | none => simp
  | some c => cases hf : c.pins.find? (b.canonicalKey c key) <;> simp [hf]

theorem pin_error_iff {component : ComponentId} {key : String} :
    pin component key b = .error e b' ↔
      b.components[component]? = none ∧ .unknownComponent component = e ∧ b = b' := by
  simp only [pin, get_bind_apply]
  cases hc : b.components[component]? with
  | none => simp
  | some c => cases hf : c.pins.find? (b.canonicalKey c key) <;> simp [hf]

/-- The pin that asking for a key answers. -/
def keyed? (b : Build α) (component : ComponentId) (key : String) : Option PinId :=
  match pin component key b with
  | .ok p _ => some p
  | .error .. => none

theorem keyed?_eq_some {component : ComponentId} {key : String} {p : PinId} :
    b.keyed? component key = some p ↔ ∃ b', pin component key b = .ok p b' := by
  rw [keyed?]
  cases pin component key b <;> simp

/-! ### Ties -/

theorem merge_ok_iff {into source : NetId} {u : Unit} :
    merge into source b = .ok u b' ↔
      into = source ∧ b = b' ∨
        into ≠ source ∧ ∃ n r, b.net? into = some n ∧ b.net? source = some r ∧
          b.compatible (n.pins ++ r.pins) = true ∧ b.absorb into source r = b' := by
  by_cases heq : into = source
  · simp [merge, heq]
  simp only [merge, heq, if_false, bind_ok_iff, liveNet_ok_iff, checkCompatible_ok_iff,
    modify_bind_apply, changeNet_ok_iff, foldl_setNetOf_net?, retire_net?, Ne.symm heq, false_and,
    false_or, ne_eq, not_false_eq_true, true_and]
  constructor
  · rintro ⟨n, _, ⟨hn, rfl⟩, r, _, ⟨hr, rfl⟩, _, _, ⟨hc, rfl⟩, -, rfl⟩
    exact ⟨n, r, hn, hr, hc, rfl⟩
  · rintro ⟨n, r, hn, hr, hc, rfl⟩
    exact ⟨n, b, ⟨hn, rfl⟩, r, b, ⟨hr, rfl⟩, ⟨⟩, b, ⟨hc, rfl⟩, ⟨n, hn⟩, rfl⟩

/-- A refused merge changes nothing: once the pins have moved, the net they have
moved to is still live. -/
theorem merge_error {into source : NetId} (h : merge into source b = .error e b') : b = b' := by
  by_cases heq : into = source
  · simp [merge, heq] at h
  simp only [merge, heq, if_false, bind_error_iff, liveNet_ok_iff, checkCompatible_ok_iff,
    modify_bind_apply] at h
  rcases h with h | ⟨n, _, ⟨hn, rfl⟩, h | ⟨r, _, ⟨-, rfl⟩, h | ⟨_, _, ⟨-, rfl⟩, h⟩⟩⟩
  · exact liveNet_error h
  · exact liveNet_error h
  · exact checkCompatible_error h
  · have hdead := (changeNet_error h).1
    rw [foldl_setNetOf_net?, retire_net?, if_neg (Ne.symm heq), hn] at hdead
    cases hdead

/-! ### Ties, case by case -/

section Cases

variable {net : NetId} {n : Net} {pin : PinId} {p : Pin}

theorem tie_net (hn : b.net? net = some n) (other : NetId) :
    tie net (.net other) b = merge net other b := by
  rw [tie, bind_of_ok (liveNet_ok_iff.2 ⟨hn, rfl⟩)]

/-- On a live net and a pin that exists, a tie asks first whether the pin is on the
net, then whether it is marked, then whether it is on another net. -/
theorem tie_pin (hn : b.net? net = some n) (hp : b.pins[pin]? = some p) :
    tie net (.pin pin) b =
      if p.net = some net then .ok ⟨⟩ b
      else if p.noConnect then .error (.alreadyNoConnect (b.pinLabel p)) b
      else match p.net with
        | some other => merge net other b
        | none =>
            if b.compatible (n.pins ++ [pin]) then .ok ⟨⟩ (b.attach net pin)
            else .error (.noConnectConflict (b.netLabel net)) b := by
  rw [tie, bind_of_ok (liveNet_ok_iff.2 ⟨hn, rfl⟩)]
  dsimp only
  rw [bind_of_ok (knownPin_ok_iff.2 ⟨hp, rfl⟩)]
  by_cases hon : p.net = some net
  · simp only [hon, if_true, pure_apply]
  cases hnc : p.noConnect with
  | true => simp only [hon, if_false, if_true, get_bind_apply, throw_apply]
  | false =>
    cases hfree : p.net with
    | some other =>
      rw [hfree] at hon
      simp only [hon, if_false, Bool.false_eq_true]
    | none =>
      simp only [reduceCtorEq, if_false, Bool.false_eq_true]
      by_cases hc : b.compatible (n.pins ++ [pin]) = true
      · rw [bind_of_ok ((checkCompatible_ok_iff (u := ⟨⟩)).2 ⟨hc, rfl⟩), modify_bind_apply,
          if_pos hc]
        exact changeNet_ok_iff.2 ⟨⟨n, hn⟩, rfl⟩
      · rw [if_neg hc]
        exact bind_error_iff.2 (.inl (by simp [checkCompatible, hc]))

/-- A tie is refused at once, or the net is live and the pin exists. -/
theorem tie_found (b : Build α) (net : NetId) (target : Tie) :
    (∃ e, tie net target b = .error e b) ∨
      (∃ n, b.net? net = some n) ∧ ∀ pin, target = .pin pin → ∃ p, b.pins[pin]? = some p := by
  cases hn : b.net? net with
  | none =>
    obtain ⟨e, he⟩ := liveNet_missing hn
    exact .inl ⟨e, bind_error_iff.2 (.inl he)⟩
  | some n =>
    cases target with
    | net other => exact .inr ⟨⟨n, rfl⟩, by rintro _ ⟨⟩⟩
    | pin pin =>
      cases hp : b.pins[pin]? with
      | some p => exact .inr ⟨⟨n, rfl⟩, by rintro _ ⟨⟩; exact ⟨p, hp⟩⟩
      | none =>
        refine .inl ⟨.unknownPin pin, ?_⟩
        rw [tie, bind_of_ok (liveNet_ok_iff.2 ⟨hn, rfl⟩)]
        exact bind_error_iff.2 (.inl (by simp [knownPin, hp]))

end Cases

/-- What a successful tie does: nothing when the target is on the net already,
else it attaches a pin without a net or brings the target's net along. -/
inductive Tied (b : Build α) (net : NetId) : Tie → Build α → Prop
  /-- The target is on the net. -/
  | same {target : Tie} {n : Net} (live : b.net? net = some n)
      (on : b.netOfTie? target = some net) : Tied b net target b
  /-- The target is a pin without a net. -/
  | attach {pin : PinId} {n : Net} {p : Pin} (live : b.net? net = some n)
      (known : b.pins[pin]? = some p) (free : p.net = none) (unmarked : p.noConnect = false)
      (room : b.compatible (n.pins ++ [pin]) = true) : Tied b net (.pin pin) (b.attach net pin)
  /-- The target is, or is on, another net. -/
  | absorb {target : Tie} {source : NetId} {n r : Net} (live : b.net? net = some n)
      (on : b.netOfTie? target = some source) (ne : net ≠ source)
      (unmarked : ∀ pin, target = .pin pin → b.isNoConnect pin = false)
      (other : b.net? source = some r) (room : b.compatible (n.pins ++ r.pins) = true) :
      Tied b net target (b.absorb net source r)

theorem isNoConnect_of_pin {pin : PinId} {p : Pin} (h : b.pins[pin]? = some p) :
    b.isNoConnect pin = p.noConnect := by simp [isNoConnect, h]

/-- A tie of a pin that is accepted does what `Tied` says. -/
theorem tied_of_tie_pin {net : NetId} {n : Net} {pin : PinId} {p : Pin} {u : Unit}
    (hn : b.net? net = some n) (hp : b.pins[pin]? = some p)
    (h : tie net (.pin pin) b = .ok u b') : Tied b net (.pin pin) b' := by
  have hnet : b.netOf? pin = p.net := netOf?_of_pin hp
  rw [tie_pin hn hp] at h
  by_cases hon : p.net = some net
  · rw [if_pos hon] at h
    cases h
    exact .same hn (hnet.trans hon)
  rw [if_neg hon] at h
  cases hmark : p.noConnect with
  | true =>
    rw [if_pos hmark] at h
    cases h
  | false =>
    rw [if_neg (by simp [hmark])] at h
    cases hother : p.net with
    | some other =>
      simp only [hother] at h
      rcases merge_ok_iff.1 h with ⟨rfl, -⟩ | ⟨hne, n', r, hn', hr, hroom, rfl⟩
      · exact absurd hother hon
      · refine .absorb hn' (hnet.trans hother) hne ?_ hr hroom
        rintro _ ⟨⟩
        exact (isNoConnect_of_pin hp).trans hmark
    | none =>
      simp only [hother] at h
      by_cases hroom : b.compatible (n.pins ++ [pin]) = true
      · rw [if_pos hroom] at h
        cases h
        exact .attach hn hp hother hmark hroom
      · rw [if_neg hroom] at h
        cases h

/-- What `Tied` allows is accepted. -/
theorem tie_of_tied {net : NetId} {target : Tie} (h : Tied b net target b') :
    tie net target b = .ok ⟨⟩ b' := by
  cases h with
  | same hn on =>
    cases target with
    | net other =>
      cases on
      rw [tie_net hn]
      exact merge_ok_iff.2 (.inl ⟨rfl, rfl⟩)
    | pin pin =>
      obtain ⟨p, hp, hpn⟩ := netOf?_eq_some.1 on
      rw [tie_pin hn hp, if_pos hpn]
  | attach hn hp hfree hmark hroom =>
    simp only [tie_pin hn hp, hfree, hmark, hroom, reduceCtorEq, Bool.false_eq_true, if_false,
      if_true]
  | absorb hn on hne hmark hr hroom =>
    have hmerge := (merge_ok_iff (u := ⟨⟩)).2 (.inr ⟨hne, _, _, hn, hr, hroom, rfl⟩)
    cases target with
    | net other =>
      cases on
      rw [tie_net hn]
      exact hmerge
    | pin pin =>
      obtain ⟨p, hp, hpn⟩ := netOf?_eq_some.1 on
      have hunmarked := (isNoConnect_of_pin hp).symm.trans (hmark pin rfl)
      simp only [tie_pin hn hp, hpn, hunmarked, Option.some.injEq, Ne.symm hne, Bool.false_eq_true,
        if_false]
      exact hmerge

/-- A tie succeeds exactly when `Tied` says what it does. -/
theorem tie_ok_iff {net : NetId} {target : Tie} {u : Unit} :
    tie net target b = .ok u b' ↔ Tied b net target b' := by
  refine ⟨fun h => ?_, tie_of_tied⟩
  rcases b.tie_found net target with ⟨e, he⟩ | ⟨⟨n, hn⟩, hknown⟩
  · rw [he] at h
    cases h
  cases target with
  | pin pin =>
    obtain ⟨p, hp⟩ := hknown pin rfl
    exact tied_of_tie_pin hn hp h
  | net other =>
    rw [tie_net hn, merge_ok_iff] at h
    rcases h with ⟨rfl, rfl⟩ | ⟨hne, n', r, hn', hr, hroom, rfl⟩
    · exact .same hn rfl
    · exact .absorb hn' rfl hne (by rintro _ ⟨⟩) hr hroom

/-- A refused tie changes nothing. -/
theorem tie_error {net : NetId} {target : Tie} (h : tie net target b = .error e b') : b = b' := by
  rcases b.tie_found net target with ⟨e', he⟩ | ⟨⟨n, hn⟩, hknown⟩
  · rw [he] at h
    cases h
    rfl
  cases target with
  | net other =>
    rw [tie_net hn] at h
    exact merge_error h
  | pin pin =>
    obtain ⟨p, hp⟩ := hknown pin rfl
    rw [tie_pin hn hp] at h
    -- accepted, refused since it is marked, merged, or attached if there is room
    split at h
    · cases h
    split at h
    · cases h
      rfl
    split at h
    · exact merge_error h
    · split at h <;> cases h
      rfl

/-! ### Pairs of pins -/

/-- Pins may be on one net when there is no marker among them or at most one of
them is functional. -/
theorem compatible_iff {pins : List PinId} :
    b.compatible pins = true ↔
      (∃ p ∈ pins, b.isMarkerPin p = true) → pins.countP (fun p => !b.isMarkerPin p) ≤ 1 := by
  simp only [compatible, Bool.not_eq_true', Bool.and_eq_false_imp, List.any_eq_true,
    decide_eq_false_iff_not, Nat.not_lt]

/-- Two pins may always be on one net. -/
theorem compatible_of_length_le {pins : List PinId} (h : pins.length ≤ 2) :
    b.compatible pins = true := by
  refine compatible_iff.2 fun ⟨p, hp, hmarker⟩ => ?_
  -- one pin is a marker's, so that at most one is left
  have hne : pins.countP (fun p => !b.isMarkerPin p) ≠ pins.length := fun heq => by
    simpa [hmarker] using List.countP_eq_length.1 heq p hp
  have hle := List.countP_le_length (p := fun p => !b.isMarkerPin p) (l := pins)
  omega

/-- Tying two pins without a net puts both on a new one. -/
theorem tiePins_free {first second : PinId} {p q : Pin} (hp : b.pins[first]? = some p)
    (hq : b.pins[second]? = some q) (hpfree : p.net = none) (hqfree : q.net = none)
    (hpmark : p.noConnect = false) (hqmark : q.noConnect = false) :
    ∃ b₁ b₂, Tied (b.putNet none) b.nets.size (.pin first) b₁ ∧
      Tied b₁ b.nets.size (.pin second) b₂ ∧
      tiePins first second b = .ok b.nets.size b₂ := by
  have hnew : (b.putNet none).net? b.nets.size = some ⟨b.nets.size, none, [], false⟩ := by
    simp [putNet_net?]
  let b₁ := (b.putNet none).attach b.nets.size first
  have hfirst : Tied (b.putNet none) b.nets.size (.pin first) b₁ :=
    .attach hnew hp hpfree hpmark (compatible_of_length_le (by simp))
  have hnet₁ : b₁.net? b.nets.size = some ⟨b.nets.size, none, [first], false⟩ := by
    simp [b₁, attach_net?, hnew]
  obtain ⟨b₂, hsecond⟩ : ∃ b₂, Tied b₁ b.nets.size (.pin second) b₂ := by
    -- a pin that is tied to itself is on the new net by now
    by_cases heq : first = second
    · subst heq
      refine ⟨b₁, .same hnet₁ ?_⟩
      change b₁.netOf? first = _
      rw [attach_netOf?, if_pos rfl]
      exact congrArg (Option.map fun _ => b.nets.size) hp
    · refine ⟨_, .attach hnet₁ ?_ hqfree hqmark (compatible_of_length_le (by simp))⟩
      rw [attach_pins, if_neg heq]
      exact hq
  refine ⟨b₁, b₂, hfirst, hsecond, ?_⟩
  rw [tiePins, bind_of_ok (knownPin_ok_iff.2 ⟨hp, rfl⟩), bind_of_ok (knownPin_ok_iff.2 ⟨hq, rfl⟩),
    bind_of_ok ((checkConnectable_ok_iff (u := ⟨⟩)).2 ⟨hpmark, rfl⟩),
    bind_of_ok ((checkConnectable_ok_iff (u := ⟨⟩)).2 ⟨hqmark, rfl⟩), hpfree, hqfree]
  dsimp only
  rw [bind_of_ok (addNet_apply none), bind_of_ok ((tie_ok_iff (u := ⟨⟩)).2 hfirst),
    bind_of_ok ((tie_ok_iff (u := ⟨⟩)).2 hsecond), pure_apply]

/-- What tying two pins does: the one is tied to the net of the other, or both to a
new net. -/
inductive PinsTied (b : Build α) (first second : PinId) (net : NetId) : Build α → Prop
  /-- The first pin is on a net. -/
  | first {b' : Build α} (on : b.netOf? first = some net) (tied : Tied b net (.pin second) b') :
      PinsTied b first second net b'
  /-- Only the second pin is on a net. -/
  | second {b' : Build α} (free : b.netOf? first = none) (on : b.netOf? second = some net)
      (tied : Tied b net (.pin first) b') : PinsTied b first second net b'
  /-- Neither pin is on a net. -/
  | fresh {b₁ b₂ : Build α} (new : net = b.nets.size)
      (one : Tied (b.putNet none) net (.pin first) b₁) (two : Tied b₁ net (.pin second) b₂) :
      PinsTied b first second net b₂

/-- Two pins that are tied end up as `PinsTied` says. -/
theorem tiePins_ok {first second : PinId} {net : NetId}
    (h : tiePins first second b = .ok net b') : PinsTied b first second net b' := by
  have hsteps := h
  simp only [tiePins, bind_ok_iff, knownPin_ok_iff, checkConnectable_ok_iff] at hsteps
  obtain ⟨p, _, ⟨hp, rfl⟩, q, _, ⟨hq, rfl⟩, -, _, ⟨hpmark, rfl⟩, -, _, ⟨hqmark, rfl⟩, hties⟩ :=
    hsteps
  cases hpn : p.net with
  | some n =>
    simp only [hpn, bind_ok_iff, tie_ok_iff, pure_apply] at hties
    obtain ⟨-, _, htied, ⟨⟩⟩ := hties
    exact .first ((netOf?_of_pin hp).trans hpn) htied
  | none =>
    cases hqn : q.net with
    | some n =>
      simp only [hpn, hqn, bind_ok_iff, tie_ok_iff, pure_apply] at hties
      obtain ⟨-, _, htied, ⟨⟩⟩ := hties
      exact .second ((netOf?_of_pin hp).trans hpn) ((netOf?_of_pin hq).trans hqn) htied
    | none =>
      obtain ⟨b₁, b₂, hone, htwo, hok⟩ := tiePins_free hp hq hpn hqn hpmark hqmark
      rw [hok] at h
      cases h
      exact .fresh rfl hone htwo

/-- Refusing to tie two pins changes nothing: once a new net is made, both ties to it
are accepted. -/
theorem tiePins_error {first second : PinId} (h : tiePins first second b = .error e b') :
    b = b' := by
  have hsteps := h
  simp only [tiePins, bind_error_iff, knownPin_ok_iff, checkConnectable_ok_iff,
    checkConnectable_error_iff] at hsteps
  obtain hfail | ⟨p, _, ⟨hp, rfl⟩, hfail | ⟨q, _, ⟨hq, rfl⟩, ⟨-, -, hfail⟩ |
    ⟨-, _, ⟨hpmark, rfl⟩, ⟨-, -, hfail⟩ | ⟨-, _, ⟨hqmark, rfl⟩, hties⟩⟩⟩⟩ := hsteps
  · exact (knownPin_error hfail).2
  · exact (knownPin_error hfail).2
  · exact hfail
  · exact hfail
  -- both pins exist and neither is marked: what follows is a tie, or two that are accepted
  cases hpn : p.net with
  | some n =>
    simp only [hpn, bind_error_iff, pure_apply, reduceCtorEq, and_false, exists_false,
      or_false] at hties
    exact tie_error hties
  | none =>
    cases hqn : q.net with
    | some n =>
      simp only [hpn, hqn, bind_error_iff, pure_apply, reduceCtorEq, and_false, exists_false,
        or_false] at hties
      exact tie_error hties
    | none =>
      obtain ⟨b₁, b₂, -, -, hok⟩ := tiePins_free hp hq hpn hqn hpmark hqmark
      rw [hok] at h
      cases h

/-- Tying by key makes the pin if need be and goes on as a tie of that pin. -/
theorem connect_ok {component : ComponentId} {key : String} {target : Tie} {net : NetId}
    (h : connect component key target b = .ok net b') :
    ∃ p b₁, pin component key b = .ok p b₁ ∧
      (target = .net net ∧ Tied b₁ net (.pin p) b' ∨
        ∃ other, target = .pin other ∧ tiePins p other b₁ = .ok net b') := by
  obtain ⟨p, b₁, hpin, h⟩ := bind_ok_iff.1 h
  refine ⟨p, b₁, hpin, ?_⟩
  cases target with
  | net n =>
    simp only [bind_ok_iff, tie_ok_iff, pure_apply] at h
    obtain ⟨-, _, htied, ⟨⟩⟩ := h
    exact .inl ⟨rfl, htied⟩
  | pin other => exact .inr ⟨other, rfl, h⟩

/-- A refused tie by key leaves the circuit as asking for the pin leaves it. -/
theorem connect_error {component : ComponentId} {key : String} {target : Tie}
    (h : connect component key target b = .error e b') :
    pin component key b = .error e b' ∨ ∃ p, pin component key b = .ok p b' := by
  refine (bind_error_iff.1 h).imp_right ?_
  rintro ⟨p, b₁, hpin, h⟩
  refine ⟨p, ?_⟩
  cases target with
  | net n =>
    simp only [bind_error_iff, pure_apply, reduceCtorEq, and_false, exists_false, or_false] at h
    rw [hpin, tie_error h]
  | pin other => rw [hpin, tiePins_error h]

/-! ### Unconnected pins -/

/-- The key of the only pin of a marker. -/
def markerKey (b : Build α) : String :=
  (b.numbering.bind fun number => number noConnectSymbol "1").getD "1"

/-- Put the marker of a pin and the marker's own pin at the end. -/
def withMarker (b : Build α) (p : Pin) (reason : Option String) : Build α :=
  ((b.putComponent (b.markerSpec p reason)).setMarker b.components.size).putPin
    b.components.size b.markerKey

theorem modify_push_size {β : Type} (xs : Array β) (x : β) (f : β → β) :
    (xs.push x).modify xs.size f = xs.push (f x) := by
  apply Array.ext_getElem?
  intro i
  simp only [Array.getElem?_modify, Array.getElem?_push, eq_comm (a := xs.size)]
  split <;> rfl

theorem withMarker_components (p : Pin) (reason : Option String) :
    (b.withMarker p reason).components =
      b.components.push { (b.markerSpec p reason).component b.components.size with
        marker := true
        pins := (∅ : PinTable).push b.markerKey b.pins.size } := by
  simp only [withMarker, putPin, setMarker, putComponent_components, modify_push_size]
  rfl

theorem withMarker_pins (p : Pin) (reason : Option String) :
    (b.withMarker p reason).pins =
      b.pins.push ⟨b.pins.size, b.components.size, b.markerKey, none, false⟩ := rfl

@[simp] theorem withMarker_netOf? (p : Pin) (reason : Option String) (q : PinId) :
    (b.withMarker p reason).netOf? q = b.netOf? q := putPin_netOf? ..

theorem withMarker_isMarkerPin (p : Pin) (reason : Option String) :
    (b.withMarker p reason).isMarkerPin b.pins.size = true := by
  simp [isMarkerPin, withMarker_pins, withMarker_components]

/-- Taking the marker and its pin away again gives the circuit back. -/
theorem dropLast_withMarker (p : Pin) (reason : Option String) :
    (b.withMarker p reason).dropLast = b := by
  have hc : (b.withMarker p reason).components.pop = b.components := by
    rw [withMarker_components, Array.pop_push]
  have hp : (b.withMarker p reason).pins.pop = b.pins := by
    rw [withMarker_pins, Array.pop_push]
  simp only [dropLast, hc, hp]
  rfl

/-- The first pin that is asked of a new marker is a new pin. -/
theorem pin_marker (p : Pin) (reason : Option String) :
    pin b.components.size "1"
        ((b.putComponent (b.markerSpec p reason)).setMarker b.components.size) =
      .ok b.pins.size (b.withMarker p reason) := by
  refine pin_ok_iff.2 ⟨{ (b.markerSpec p reason).component b.components.size with marker := true },
    ?_, .inr ⟨rfl, rfl, rfl⟩⟩
  simp [setMarker, modify_push_size]

/-- What tying a marker does: its pin is tied to the net of the pin that it marks, or, when
that pin is on no net, the two are tied together. -/
inductive MarkerTied (b : Build α) (target markerPin : PinId) (p : Pin) (net : NetId)
    (b' : Build α) : Prop
  /-- The pin is on a net. -/
  | beside (on : p.net = some net) (tied : Tied b net (.pin markerPin) b')
  /-- The pin is on no net. -/
  | together (free : p.net = none) (tied : tiePins target markerPin b = .ok net b')

theorem tieMarker_ok {target markerPin : PinId} {p : Pin} {u : Unit}
    (h : tieMarker target p markerPin b = .ok u b') :
    ∃ net, MarkerTied b target markerPin p net b' := by
  cases hn : p.net with
  | some net =>
    simp only [tieMarker, hn, tie_ok_iff] at h
    exact ⟨net, .beside hn h⟩
  | none =>
    simp only [tieMarker, hn, bind_ok_iff, pure_apply] at h
    obtain ⟨net, _, hties, ⟨⟩⟩ := h
    exact ⟨net, .together hn hties⟩

theorem tieMarker_error {target markerPin : PinId} {p : Pin}
    (h : tieMarker target p markerPin b = .error e b') : b = b' := by
  cases hn : p.net with
  | some net =>
    simp only [tieMarker, hn] at h
    exact tie_error h
  | none =>
    simp only [tieMarker, hn, bind_error_iff, pure_apply, reduceCtorEq, and_false, exists_false,
      or_false] at h
    exact tiePins_error h

/-- Marking a pin that exists and is not marked: the marker is put, and taken away
again if it cannot be tied. -/
theorem markNoConnect_eq {target : PinId} {reason : Option String} {p : Pin}
    (hp : b.pins[target]? = some p) (hmark : p.noConnect = false) :
    markNoConnect target reason b =
      match tieMarker target p b.pins.size (b.withMarker p reason) with
      | .ok _ b₁ => .ok b.components.size (b₁.setNoConnect target)
      | .error e b₁ => .error e b₁.dropLast := by
  rw [markNoConnect, bind_of_ok (knownPin_ok_iff.2 ⟨hp, rfl⟩),
    bind_of_ok ((checkConnectable_ok_iff (u := ⟨⟩)).2 ⟨hmark, rfl⟩), get_bind_apply,
    bind_of_ok (addComponent_ok_iff.2 ⟨by rintro _ ⟨⟩, rfl, rfl⟩), modify_bind_apply,
    bind_of_ok (pin_marker p reason)]
  rw [tryCatch_bind_apply]
  cases tieMarker target p b.pins.size (b.withMarker p reason) <;> rfl

/-- A pin that is marked existed and was not marked before, and its marker is tied. -/
theorem markNoConnect_ok {target : PinId} {reason : Option String} {marker : ComponentId}
    (h : markNoConnect target reason b = .ok marker b') :
    ∃ p b₁ net, b.pins[target]? = some p ∧ p.noConnect = false ∧ marker = b.components.size ∧
      b' = b₁.setNoConnect target ∧
      MarkerTied (b.withMarker p reason) target b.pins.size p net b₁ := by
  have hsteps := h
  simp only [markNoConnect, bind_ok_iff, knownPin_ok_iff, checkConnectable_ok_iff] at hsteps
  obtain ⟨p, _, ⟨hp, rfl⟩, -, _, ⟨hmark, rfl⟩, -⟩ := hsteps
  rw [markNoConnect_eq hp hmark] at h
  cases htie : tieMarker target p b.pins.size (b.withMarker p reason) with
  | error e b₁ =>
    rw [htie] at h
    cases h
  | ok u b₁ =>
    rw [htie] at h
    cases h
    obtain ⟨net, htied⟩ := tieMarker_ok htie
    exact ⟨p, b₁, net, hp, hmark, rfl, rfl, htied⟩

/-- A refusal to mark a pin changes nothing: the tie of the marker was refused before
it changed anything, and the marker and its pin are taken away again. -/
theorem markNoConnect_error {target : PinId} {reason : Option String}
    (h : markNoConnect target reason b = .error e b') : b = b' := by
  cases hp : b.pins[target]? with
  | none =>
    rw [markNoConnect] at h
    rcases bind_error_iff.1 h with h | ⟨p, _, hknown, -⟩
    · exact (knownPin_error h).2
    · rw [(knownPin_ok_iff.1 hknown).1] at hp
      cases hp
  | some p =>
    cases hmark : p.noConnect with
    | true =>
      rw [markNoConnect, bind_of_ok (knownPin_ok_iff.2 ⟨hp, rfl⟩)] at h
      rcases bind_error_iff.1 h with h | ⟨u, _, hcheck, -⟩
      · exact (checkConnectable_error_iff.1 h).2.2
      · rw [(checkConnectable_ok_iff.1 hcheck).1] at hmark
        cases hmark
    | false =>
      rw [markNoConnect_eq hp hmark] at h
      cases htie : tieMarker target p b.pins.size (b.withMarker p reason) with
      | ok u b₁ =>
        rw [htie] at h
        cases h
      | error e' b₁ =>
        rw [htie] at h
        cases h
        -- the tie was refused before it changed anything, so taking away the last entries
        -- takes away the marker and its pin
        rw [← tieMarker_error htie, dropLast_withMarker]

/-! ### Ports and interfaces -/

theorem expose_ok {composable : ComposableId} {name : String} {net : NetId} {u : Unit}
    (h : expose composable name net b = .ok u b') :
    (∃ n, b.net? net = some n) ∧ composable < b.composables.size ∧
      b' = b.setPort composable name net := by
  simp only [expose, bind_ok_iff, liveNet_ok_iff, knownComposable_ok_iff, modify_apply] at h
  obtain ⟨n, _, ⟨hn, rfl⟩, c, _, ⟨hc, rfl⟩, ⟨⟩⟩ := h
  exact ⟨⟨n, hn⟩, (Array.getElem?_eq_some_iff.1 hc).1, rfl⟩

theorem expose_error {composable : ComposableId} {name : String} {net : NetId}
    (h : expose composable name net b = .error e b') : b = b' := by
  simp only [expose, bind_error_iff, liveNet_ok_iff, modify_apply, reduceCtorEq, and_false,
    exists_false, or_false] at h
  rcases h with h | ⟨n, _, ⟨-, rfl⟩, h⟩
  · exact liveNet_error h
  · exact knownComposable_error h

theorem interface_ok {id : ComposableId} {i : Interface} (h : interface id b = .ok i b') :
    b' = b ∨ b' = b.setInterface id (b.currentInterface id) := by
  simp only [interface, bind_ok_iff, knownComposable_ok_iff] at h
  obtain ⟨c, _, ⟨-, rfl⟩, h⟩ := h
  cases hc : c.interface with
  | some known =>
    simp only [hc, pure_apply] at h
    cases h
    exact .inl rfl
  | none =>
    simp only [hc, get_bind_apply, modify_bind_apply, pure_apply] at h
    cases h
    exact .inr rfl

theorem interface_error {id : ComposableId} (h : interface id b = .error e b') : b = b' := by
  simp only [interface, bind_error_iff, knownComposable_ok_iff] at h
  rcases h with h | ⟨c, _, ⟨-, rfl⟩, h⟩
  · exact knownComposable_error h
  · cases hc : c.interface with
    | some known =>
      rw [hc] at h
      cases h
    | none =>
      rw [hc] at h
      cases h

end Build

end Schematic
