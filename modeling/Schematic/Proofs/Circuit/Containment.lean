import Schematic.Proofs.Circuit.Declaration
import Schematic.Proofs.Number.Exact

/-!
# Composables in any order of declaration

A definition may declare a composable before the one around it.  Composables are registered
in passes: a pass registers those whose parent is registered already, and leaves the others
to the next pass.  A pass that registers none ends with an error, and then none of the
composables left is inside of anything that has no parent.

## Main definitions

* `ComposableDef.Rooted` — parent names lead to a composable without a parent.
* `CircuitDef.Pass` — what one pass does.
* `CircuitDef.Registered` — how the passes end.
* `CircuitDef.Stands` — a declared composable is registered under its parent.
* `CircuitDef.Progress` — what holds between two registrations.

## Main statements

* `CircuitDef.registerReady_cases` — a pass fails only for a position.
* `CircuitDef.Progress.register`, `CircuitDef.Progress.pass` — what a registration and a
  pass keep.
* `CircuitDef.registerAll_registered` — the passes end, and how.
* `CircuitDef.registerComposables_iff_rooted` — which definitions can be registered, and how.
-/

namespace Schematic

variable {α β γ : Type}

/-! ### Parents -/

/-- Parent names lead from a composable to one that has no parent. -/
inductive ComposableDef.Rooted (declared : List (ComposableDef α)) : ComposableDef α → Prop
  /-- A composable without a parent. -/
  | outermost {d : ComposableDef α} (h : d.parent = none) : Rooted declared d
  /-- A composable whose parent is declared and leads to one without a parent. -/
  | inside {d e : ComposableDef α} (he : e ∈ declared) (hparent : d.parent = some e.name)
      (h : Rooted declared e) : Rooted declared d

/-- The composable around a declared one, by the names that are registered: none if it has no
parent, and nothing if its parent is not registered. -/
def ComposableDef.outer? (d : ComposableDef α) (names : CircuitDef.Names) :
    Option (Option ComposableId) :=
  match d.parent with
  | none => some none
  | some parent => (names.lookup parent).map some

/-- A declared composable when it is registered. -/
def ComposableDef.composable (d : ComposableDef α) (id : ComposableId)
    (outer : Option ComposableId) (position : Option (Placement α)) : Composable α :=
  { id
    name := d.name
    position
    fixed := position.isSome
    parent := outer
    children := []
    ports := ∅
    interface := none }

namespace Build

variable {b : Build α}

/-- A composable without its members. -/
def bare? (b : Build α) (id : ComposableId) : Option (Composable α) :=
  b.composables[id]?.map fun c => { c with children := [] }

theorem lt_size_of_bare? {id : ComposableId} {c : Composable α} (h : b.bare? id = some c) :
    id < b.composables.size := by
  obtain ⟨x, hx, -⟩ := Option.map_eq_some_iff.1 h
  exact (Array.getElem?_eq_some_iff.1 hx).1

theorem putComposable_bare? (b : Build α) (d : ComposableDef α) (outer : Option ComposableId)
    (position : Option (Placement α)) (id : ComposableId) :
    (b.putComposable d.name outer position).bare? id =
      if id = b.composables.size then some (d.composable id outer position) else b.bare? id := by
  have hpush : ∀ c : Build α, (c.addChild outer (.composable b.composables.size)).bare? id =
      c.bare? id := by
    intro c
    cases outer with
    | none => rfl
    | some o =>
      simp only [addChild, bare?, Array.getElem?_modify]
      split <;> cases c.composables[id]? <;> rfl
  rw [putComposable, hpush]
  simp only [bare?, Array.getElem?_push]
  split
  · next h =>
    subst h
    rfl
  · rfl

/-- A new composable is put into no composable before some number unless its parent is one. -/
theorem putComposable_getElem? (b : Build α) (name : String) {outer : Option ComposableId}
    (position : Option (Placement α)) {i : ComposableId} (hi : i < b.composables.size)
    (houter : ∀ o, outer = some o → i < o) :
    (b.putComposable name outer position).composables[i]? = b.composables[i]? := by
  have hne : ¬i = b.composables.size := Nat.ne_of_lt hi
  cases outer with
  | none => simp [putComposable, addChild, Array.getElem?_push, hne]
  | some o =>
    have ho : ¬o = i := Nat.ne_of_gt (houter o rfl)
    simp [putComposable, addChild, Array.getElem?_modify, Array.getElem?_push, hne, ho]

end Build

open Build

namespace ReplayM

theorem bind_of_ok {x : ReplayM α β} {f : β → ReplayM α γ} {b b' : Build α} {v : β}
    (h : x b = .ok v b') : (x >>= f) b = f v b' := stateful_bind_of_ok h

theorem bind_of_error {x : ReplayM α β} {f : β → ReplayM α γ} {b b' : Build α} {e : CircuitError}
    (h : x b = .error e b') : (x >>= f) b = .error e b' := stateful_bind_of_error h

end ReplayM

namespace CircuitDef

variable [Scalar α] {b b' : Build α} {built built' names : Names}
  {ds waiting pending declared : List (ComposableDef α)} {d : ComposableDef α}

/-! ### One pass -/

/-- What one pass does: it registers a composable whose parent is registered, and makes the
others wait. -/
inductive Pass : Names → List (ComposableDef α) → Build α →
    Names → List (ComposableDef α) → Build α → Prop
  /-- There are no composables left. -/
  | done {built : Names} {b : Build α} : Pass built [] b built [] b
  /-- The next composable is registered. -/
  | register {built built' : Names} {d : ComposableDef α} {ds waiting : List (ComposableDef α)}
      {b b' : Build α} {outer : Option ComposableId} {position : Option (Placement α)}
      (ready : d.outer? built = some outer)
      (placed : authorPlacement d.name d.at? = .ok position)
      (rest : Pass ((d.name, b.composables.size) :: built) ds
        (b.putComposable d.name outer position) built' waiting b') :
      Pass built (d :: ds) b built' waiting b'
  /-- The next composable has to wait. -/
  | wait {built built' : Names} {d : ComposableDef α} {ds waiting : List (ComposableDef α)}
      {b b' : Build α} (unready : d.outer? built = none)
      (rest : Pass built ds b built' waiting b') : Pass built (d :: ds) b built' (d :: waiting) b'

/-- The numbers of names stand for composables. -/
def Known (built : Names) (b : Build α) : Prop :=
  ∀ name id, built.lookup name = some id → id < b.composables.size

omit [Scalar α] in
/-- A composable that is ready has a parent that exists, or none. -/
theorem Known.outer_lt (h : Known built b) {outer : Option ComposableId}
    (ready : d.outer? built = some outer) : ∀ o, outer = some o → o < b.composables.size := by
  rintro o rfl
  unfold ComposableDef.outer? at ready
  split at ready
  · cases ready
  · next parent _ =>
    obtain ⟨id, hid, heq⟩ := Option.map_eq_some_iff.1 ready
    rw [Option.some.inj heq] at hid
    exact h parent o hid

omit [Scalar α] in
theorem Known.register (h : Known built b) (outer : Option ComposableId)
    (position : Option (Placement α)) :
    Known ((d.name, b.composables.size) :: built) (b.putComposable d.name outer position) := by
  intro name id hid
  rw [putComposable_composables_size]
  rw [lookup_cons_eq] at hid
  split at hid
  · exact Nat.lt_succ_of_le (Nat.le_of_eq (Option.some.inj hid).symm)
  · exact Nat.lt_succ_of_lt (h name id hid)

/-- What a pass does with a composable that is ready. -/
theorem registerReady_of_ready {outer : Option ComposableId}
    (ready : d.outer? built = some outer) :
    registerReady built (d :: ds) = (do
      let position ← registerReady.liftExcept (authorPlacement d.name d.at?)
      let id ← ReplayM.ofBuild (addComposable d.name outer position)
      registerReady ((d.name, id) :: built) ds) := by
  unfold ComposableDef.outer? at ready
  cases hparent : d.parent with
  | none =>
    rw [hparent] at ready
    cases ready
    simp only [registerReady, hparent]
  | some parent =>
    rw [hparent] at ready
    obtain ⟨id, hid, rfl⟩ := Option.map_eq_some_iff.1 ready
    simp only [registerReady, hparent, hid]

/-- What a pass does with a composable that has to wait. -/
theorem registerReady_of_unready (unready : d.outer? built = none) :
    registerReady built (d :: ds) = (do
      let (built', waiting) ← registerReady built ds
      pure (built', d :: waiting)) := by
  unfold ComposableDef.outer? at unready
  cases hparent : d.parent with
  | none =>
    rw [hparent] at unready
    cases unready
  | some parent =>
    rw [hparent] at unready
    have hnone : built.lookup parent = none := Option.map_eq_none_iff.1 unready
    simp only [registerReady, hparent, hnone]

theorem registerReady_register {outer : Option ComposableId} {position : Option (Placement α)}
    (known : Known built b) (ready : d.outer? built = some outer)
    (placed : authorPlacement d.name d.at? = .ok position) :
    registerReady built (d :: ds) b = registerReady ((d.name, b.composables.size) :: built) ds
      (b.putComposable d.name outer position) := by
  have hadd : ReplayM.ofBuild (addComposable d.name outer position) b =
      .ok b.composables.size (b.putComposable d.name outer position) :=
    ReplayM.ofBuild_ok_iff.2 (addComposable_ok_iff.2 ⟨known.outer_lt ready, rfl, rfl⟩)
  rw [registerReady_of_ready ready, ReplayM.bind_of_ok (liftExcept_ok_iff.2 ⟨placed, rfl⟩),
    ReplayM.bind_of_ok hadd]

theorem registerReady_misplaced {outer : Option ComposableId} {e : CircuitError}
    (ready : d.outer? built = some outer) (misplaced : authorPlacement d.name d.at? = .error e) :
    registerReady built (d :: ds) b = .error e b := by
  rw [registerReady_of_ready ready, misplaced]
  rfl

theorem registerReady_wait (unready : d.outer? built = none)
    (rest : registerReady built ds b = .ok (built', waiting) b') :
    registerReady built (d :: ds) b = .ok (built', d :: waiting) b' := by
  rw [registerReady_of_unready unready, ReplayM.bind_of_ok rest]
  rfl

/-- A pass comes to a composable that is ready and has no well-formed position. -/
structure Fails (built : Names) (ds : List (ComposableDef α)) (b : Build α)
    (d : ComposableDef α) (e : CircuitError) (b' : Build α) : Prop where
  /-- The pass ends with an error. -/
  error : registerReady built ds b = .error e b'
  /-- It is the error about the position. -/
  misplaced : authorPlacement d.name d.at? = .error e
  /-- The composables before it were registered, or had to wait. -/
  reached : ∃ before after built' waiting outer, ds = before ++ d :: after ∧
    Pass built before b built' waiting b' ∧ d.outer? built' = some outer

/-- A pass fails only for a position that is not well-formed. -/
theorem registerReady_cases (known : Known built b) (ds : List (ComposableDef α)) :
    (∃ built' waiting b', registerReady built ds b = .ok (built', waiting) b' ∧
      Pass built ds b built' waiting b') ∨ ∃ d e b', Fails built ds b d e b' := by
  induction ds generalizing built b with
  | nil => exact .inl ⟨built, [], b, rfl, .done⟩
  | cons d ds ih =>
    cases hready : d.outer? built with
    | some outer =>
      cases hplaced : authorPlacement d.name d.at? with
      | error e =>
        exact .inr ⟨d, e, b, registerReady_misplaced hready hplaced, hplaced,
          [], ds, built, [], outer, rfl, .done, hready⟩
      | ok position =>
        have hregister : registerReady built (d :: ds) b = _ :=
          registerReady_register known hready hplaced
        rcases ih (known.register outer position) with
          ⟨built', waiting, b', hok, hpass⟩ | ⟨c, e, b', hfails⟩
        · exact .inl ⟨built', waiting, b', hregister.trans hok, .register hready hplaced hpass⟩
        · obtain ⟨before, after, built', waiting, outer', rfl, hpass, hc⟩ := hfails.reached
          exact .inr ⟨c, e, b', hregister.trans hfails.error, hfails.misplaced,
            d :: before, after, built', waiting, outer', rfl, .register hready hplaced hpass, hc⟩
    | none =>
      rcases ih known with ⟨built', waiting, b', hok, hpass⟩ | ⟨c, e, b', hfails⟩
      · exact .inl ⟨built', d :: waiting, b', registerReady_wait hready hok, .wait hready hpass⟩
      · obtain ⟨before, after, built', waiting, outer', rfl, hpass, hc⟩ := hfails.reached
        refine .inr ⟨c, e, b', ?_, hfails.misplaced,
          d :: before, after, built', d :: waiting, outer', rfl, .wait hready hpass, hc⟩
        rw [registerReady_of_unready hready, ReplayM.bind_of_error hfails.error]

/-- A pass leaves some of the composables there were, in the same order. -/
theorem Pass.sublist (h : Pass built ds b built' waiting b') : waiting.Sublist ds := by
  induction h with
  | done => exact .slnil
  | register _ _ _ ih => exact .cons _ ih
  | wait _ _ ih => exact .cons_cons _ ih

/-- A pass that leaves as many composables as there were leaves all of them, as none of them
is ready. -/
theorem Pass.stuck (h : Pass built ds b built' waiting b') (hlength : waiting.length = ds.length) :
    waiting = ds ∧ ∀ d ∈ ds, d.outer? built = none := by
  induction h with
  | done => exact ⟨rfl, by simp⟩
  | register _ _ rest =>
    have hle := rest.sublist.length_le
    rw [hlength, List.length_cons] at hle
    exact absurd hle (Nat.not_succ_le_self _)
  | wait unready _ ih =>
    obtain ⟨rfl, hunready⟩ := ih (Nat.succ.inj hlength)
    exact ⟨rfl, List.forall_mem_cons.2 ⟨unready, hunready⟩⟩

/-! ### From one registration to the next -/

/-- A declared composable is registered as it is declared, after those there were, as a member
of the registered composable that has the name of its parent. -/
structure Stands (names : Names) (start : Nat) (b : Build α) (d : ComposableDef α)
    (id : ComposableId) (outer : Option ComposableId) : Prop where
  /-- It is found by its name. -/
  lookup_eq : names.lookup d.name = some id
  /-- It is a new one. -/
  start_le : start ≤ id
  /-- Its parent is found by the name of the parent; without one it has none. -/
  outer_eq : d.outer? names = some outer
  /-- It has the name, the position and the parent, and nothing else. -/
  entry : ∃ position, authorPlacement d.name d.at? = .ok position ∧
    b.bare? id = some (d.composable id outer position)
  /-- Its parent is a new one as well, with a smaller number, and has it as a member. -/
  inside : ∀ o, outer = some o → start ≤ o ∧ o < id ∧ .composable id ∈ b.childrenOf o

/-- What holds between two registrations, of those that are registered and those that are
pending. -/
structure Progress (declared : List (ComposableDef α)) (start : Build α) (built : Names)
    (pending : List (ComposableDef α)) (b : Build α) : Prop where
  /-- The declared composables are registered or pending, each of them once. -/
  registers : ∃ done, Registers start b done ∧
    (done ++ pending.map (·.name)).Perm (declared.map (·.name))
  /-- The composables there were are left alone. -/
  kept : ∀ i < start.composables.size, b.composables[i]? = start.composables[i]?
  /-- Only declared composables are pending. -/
  pending_subset : ∀ d ∈ pending, d ∈ declared
  /-- A composable that is pending is not registered. -/
  unregistered : ∀ d ∈ pending, built.lookup d.name = none
  /-- A composable that is not pending is registered. -/
  stands : ∀ d ∈ declared,
    d ∈ pending ∨ ∃ id outer, Stands built start.composables.size b d id outer
  /-- A registered composable is declared, and parent names lead to one without a parent. -/
  rooted : ∀ name id, built.lookup name = some id → ∃ d ∈ declared, d.name = name ∧
    d.Rooted declared ∧ start.composables.size ≤ id ∧ id < b.composables.size

variable {start : Build α}

theorem Progress.known (h : Progress declared start built pending b) : Known built b := by
  intro name id hid
  obtain ⟨d, -, -, -, -, hlt⟩ := h.rooted name id hid
  exact hlt

/-- Before the first pass all composables are pending. -/
theorem progress_start (declared : List (ComposableDef α)) (b : Build α) :
    Progress declared b [] declared b where
  registers := ⟨[], .refl b, .refl _⟩
  kept _ _ := rfl
  pending_subset _ hd := hd
  unregistered _ _ := rfl
  stands _ hd := .inl hd
  rooted _ _ h := by cases h

theorem Progress.perm (h : Progress declared start built pending b)
    {pending' : List (ComposableDef α)} (hperm : pending.Perm pending') :
    Progress declared start built pending' b where
  registers := by
    obtain ⟨done, hdone, hnames⟩ := h.registers
    exact ⟨done, hdone, ((hperm.symm.map _).append_left done).trans hnames⟩
  kept := h.kept
  pending_subset d hd := h.pending_subset d (hperm.mem_iff.2 hd)
  unregistered d hd := h.unregistered d (hperm.mem_iff.2 hd)
  stands d hd := (h.stands d hd).imp_left hperm.mem_iff.1
  rooted := h.rooted

omit [Scalar α] in
theorem lookup_cons_of_some {name other : String} {id k : Nat} (hother : built.lookup other = none)
    (h : built.lookup name = some id) : List.lookup name ((other, k) :: built) = some id := by
  rw [lookup_cons_eq, if_neg, h]
  rintro rfl
  rw [hother] at h
  cases h

omit [Scalar α] in
/-- A parent that is found is still found when another composable is registered. -/
theorem outer?_cons_of_some {other : String} {k : Nat} {outer : Option ComposableId}
    (hother : built.lookup other = none) (h : d.outer? built = some outer) :
    d.outer? ((other, k) :: built) = some outer := by
  unfold ComposableDef.outer? at h ⊢
  cases hparent : d.parent with
  | none => rwa [hparent] at h
  | some parent =>
    rw [hparent] at h
    obtain ⟨o, ho, rfl⟩ := Option.map_eq_some_iff.1 h
    exact Option.map_eq_some_iff.2 ⟨o, lookup_cons_of_some hother ho, rfl⟩

/-- A composable that is ready is registered as it is declared. -/
theorem stands_register {n : Nat} {outer : Option ComposableId} {position : Option (Placement α)}
    (hn : n ≤ b.composables.size) (hnew : built.lookup d.name = none)
    (ready : d.outer? built = some outer) (placed : authorPlacement d.name d.at? = .ok position)
    (houter : ∀ o, outer = some o → n ≤ o ∧ o < b.composables.size) :
    Stands ((d.name, b.composables.size) :: built) n (b.putComposable d.name outer position) d
      b.composables.size outer where
  lookup_eq := by rw [lookup_cons_eq, if_pos rfl]
  start_le := hn
  outer_eq := outer?_cons_of_some hnew ready
  entry := ⟨position, placed, by rw [putComposable_bare?, if_pos rfl]⟩
  inside o ho := by
    obtain ⟨hstart, hlt⟩ := houter o ho
    refine ⟨hstart, hlt, ?_⟩
    rw [putComposable_childrenOf b _ _ fun p hp => (houter p hp).2, if_pos ho]
    exact List.mem_append_right _ (List.mem_singleton_self _)

/-- A composable that is registered stays as it is when another one is. -/
theorem Stands.register {n : Nat} {id : ComposableId} {outer : Option ComposableId}
    (h : Stands built n b d id outer) {e : ComposableDef α} (hnew : built.lookup e.name = none)
    {outer' : Option ComposableId} (houter : ∀ o, outer' = some o → o < b.composables.size)
    (position : Option (Placement α)) :
    Stands ((e.name, b.composables.size) :: built) n (b.putComposable e.name outer' position)
      d id outer where
  lookup_eq := lookup_cons_of_some hnew h.lookup_eq
  start_le := h.start_le
  outer_eq := outer?_cons_of_some hnew h.outer_eq
  entry := by
    obtain ⟨place, hplace, hentry⟩ := h.entry
    refine ⟨place, hplace, ?_⟩
    rw [putComposable_bare?, if_neg (Nat.ne_of_lt (lt_size_of_bare? hentry)), hentry]
  inside o ho := by
    obtain ⟨hstart, hlt, hmem⟩ := h.inside o ho
    refine ⟨hstart, hlt, ?_⟩
    rw [putComposable_childrenOf b _ _ houter]
    split
    · exact List.mem_append_left _ hmem
    · exact hmem

omit [Scalar α] in
theorem Registers.size_eq {done : List String} (h : Registers b b' done) :
    b'.composables.size = b.composables.size + done.length := by
  have hsize := congrArg Array.size h.names_eq
  simpa [composableNames] using hsize

/-- A composable that is ready has a parent among the new ones, or none, and its parent names
lead to a composable without one. -/
theorem Progress.ready (h : Progress declared start built pending b)
    {outer : Option ComposableId} (ready : d.outer? built = some outer) :
    d.Rooted declared ∧ ∀ o, outer = some o → start.composables.size ≤ o := by
  unfold ComposableDef.outer? at ready
  cases hparent : d.parent with
  | none =>
    rw [hparent] at ready
    cases ready
    exact ⟨.outermost hparent, by rintro _ ⟨⟩⟩
  | some parent =>
    rw [hparent] at ready
    obtain ⟨id, hid, rfl⟩ := Option.map_eq_some_iff.1 ready
    obtain ⟨e, he, hname, hroot, hstart, -⟩ := h.rooted parent id hid
    refine ⟨.inside he (hname ▸ hparent) hroot, ?_⟩
    rintro _ ⟨⟩
    exact hstart

/-- Registering a composable that is ready. -/
theorem Progress.register (hnames : (declared.map (·.name)).Nodup)
    (h : Progress declared start built (d :: pending) b) {outer : Option ComposableId}
    {position : Option (Placement α)} (ready : d.outer? built = some outer)
    (placed : authorPlacement d.name d.at? = .ok position) :
    Progress declared start ((d.name, b.composables.size) :: built) pending
      (b.putComposable d.name outer position) := by
  have houter := h.known.outer_lt ready
  have hnew : built.lookup d.name = none := h.unregistered d List.mem_cons_self
  have hd : d ∈ declared := h.pending_subset d List.mem_cons_self
  obtain ⟨hroot, hfresh⟩ := h.ready ready
  obtain ⟨done, hdone, hperm⟩ := h.registers
  have hsize : start.composables.size ≤ b.composables.size :=
    hdone.size_eq ▸ Nat.le_add_right _ _
  have hother : ∀ e ∈ pending, e.name ≠ d.name := by
    intro e he heq
    have hnodup := (List.nodup_append.1 (hperm.nodup_iff.2 hnames)).2.1
    have hmem : d.name ∈ pending.map (·.name) := by
      rw [← heq]
      exact List.mem_map_of_mem he
    exact (List.nodup_cons.1 hnodup).1 hmem
  constructor
  case registers =>
    refine ⟨done ++ [d.name], hdone.trans (registers_addComposable
      (addComposable_ok_iff.2 ⟨houter, rfl, rfl⟩)), ?_⟩
    rwa [List.append_assoc]
  case kept =>
    intro i hi
    rw [putComposable_getElem? b d.name position (Nat.lt_of_lt_of_le hi hsize), h.kept i hi]
    exact fun o ho => Nat.lt_of_lt_of_le hi (hfresh o ho)
  case pending_subset => exact fun e he => h.pending_subset e (List.mem_cons_of_mem _ he)
  case unregistered =>
    intro e he
    rw [lookup_cons_eq, if_neg (hother e he)]
    exact h.unregistered e (List.mem_cons_of_mem _ he)
  case stands =>
    intro e he
    rcases h.stands e he with hpending | ⟨id, outer', hstands⟩
    · rcases List.mem_cons.1 hpending with rfl | hpending
      · exact .inr ⟨b.composables.size, outer, stands_register hsize hnew ready placed
          fun o ho => ⟨hfresh o ho, houter o ho⟩⟩
      · exact .inl hpending
    · exact .inr ⟨id, outer', hstands.register hnew houter position⟩
  case rooted =>
    intro name id hid
    rw [putComposable_composables_size]
    rw [lookup_cons_eq] at hid
    split at hid
    · next heq =>
      cases hid
      exact ⟨d, hd, heq.symm, hroot, hsize, Nat.lt_succ_self _⟩
    · obtain ⟨e, he, hname, hroot', hstart, hlt⟩ := h.rooted name id hid
      exact ⟨e, he, hname, hroot', hstart, Nat.lt_succ_of_lt hlt⟩

/-- A pass keeps what holds between two registrations, whatever is pending besides. -/
theorem Pass.progress (hnames : (declared.map (·.name)).Nodup)
    (h : Pass built ds b built' waiting b') (others : List (ComposableDef α))
    (hprogress : Progress declared start built (ds ++ others) b) :
    Progress declared start built' (waiting ++ others) b' := by
  induction h generalizing others with
  | done => exact hprogress
  | register ready placed _ ih => exact ih others (hprogress.register hnames ready placed)
  | wait _ _ ih =>
    -- what waits is pending besides the rest of the pass
    exact (ih _ (hprogress.perm List.perm_middle.symm)).perm List.perm_middle

/-- When no composable that is pending is ready, parent names lead from none of them to a
composable without a parent: they would lead to one that is registered. -/
theorem Progress.not_rooted (h : Progress declared start built pending b)
    (hstuck : ∀ d ∈ pending, d.outer? built = none) (hroot : d.Rooted declared) :
    d ∉ pending := by
  induction hroot with
  | outermost hparent =>
    intro hd
    have hunready := hstuck _ hd
    simp [ComposableDef.outer?, hparent] at hunready
  | inside he hparent _ ih =>
    intro hd
    rcases h.stands _ he with hpending | ⟨id, outer, hstands⟩
    · exact ih hpending
    · have hunready := hstuck _ hd
      simp [ComposableDef.outer?, hparent, hstands.lookup_eq] at hunready

/-! ### All passes -/

/-- All declared composables are registered, each of them once, and nothing else is done. -/
structure Nests (declared : List (ComposableDef α)) (names : Names) (b b' : Build α) : Prop where
  /-- The names of the new composables are the declared ones. -/
  registers : ∃ done, Registers b b' done ∧ done.Perm (declared.map (·.name))
  /-- The composables there were are left alone. -/
  kept : ∀ i < b.composables.size, b'.composables[i]? = b.composables[i]?
  /-- Every declared composable is registered as a member of the one that its parent names. -/
  stands : ∀ d ∈ declared, ∃ id outer, Stands names b.composables.size b' d id outer

/-- When no composable is pending, all of them are registered. -/
theorem Progress.nests (h : Progress declared start built [] b) : Nests declared built start b where
  registers := by
    obtain ⟨done, hdone, hperm⟩ := h.registers
    rw [List.map_nil, List.append_nil] at hperm
    exact ⟨done, hdone, hperm⟩
  kept := h.kept
  stands d hd := (h.stands d hd).resolve_left List.not_mem_nil

/-- When no composable is pending, parent names lead from all of them to one without a
parent. -/
theorem Progress.all_rooted (hnames : (declared.map (·.name)).Nodup)
    (h : Progress declared start built [] b) : ∀ d ∈ declared, d.Rooted declared := by
  intro d hd
  obtain ⟨id, outer, hstands⟩ := (h.stands d hd).resolve_left List.not_mem_nil
  obtain ⟨e, he, hname, hroot, -⟩ := h.rooted d.name id hstands.lookup_eq
  rwa [← List.inj_on_of_nodup_map hnames he hd hname]

/-- How the passes over pending composables end. -/
inductive Registered (declared : List (ComposableDef α)) (start : Build α)
    (pending : List (ComposableDef α)) : EStateM.Result CircuitError (Build α) Names → Prop
  /-- All declared composables are registered, and parent names lead from all of them to one
  without a parent. -/
  | nested {names : Names} {b : Build α} (nests : Nests declared names start b)
      (rooted : ∀ d ∈ declared, d.Rooted declared) :
      Registered declared start pending (.ok names b)
  /-- Some are left and none of them is ready, and the first one is blamed. -/
  | stuck {built : Names} {d : ComposableDef α} {rest : List (ComposableDef α)} {b b' : Build α}
      (progress : Progress declared start built (d :: rest) b)
      (unready : ∀ e ∈ d :: rest, e.outer? built = none)
      (sublist : (d :: rest).Sublist pending) :
      Registered declared start pending (.error (stuckError declared d) b')
  /-- One that is ready has no well-formed position. -/
  | misplaced {d : ComposableDef α} {e : CircuitError} {b : Build α} (mem : d ∈ declared)
      (rooted : d.Rooted declared) (misplaced : authorPlacement d.name d.at? = .error e) :
      Registered declared start pending (.error e b)

theorem Registered.of_sublist {pending' : List (ComposableDef α)}
    {r : EStateM.Result CircuitError (Build α) Names} (h : Registered declared start pending r)
    (hsub : pending.Sublist pending') : Registered declared start pending' r := by
  cases h with
  | nested nests rooted => exact .nested nests rooted
  | stuck progress unready sublist => exact .stuck progress unready (sublist.trans hsub)
  | misplaced mem rooted misplaced => exact .misplaced mem rooted misplaced

theorem registerAll_registered (hnames : (declared.map (·.name)).Nodup)
    (h : Progress declared start built pending b) :
    Registered declared start pending (registerAll declared built pending b) := by
  -- by induction on the number of composables that are pending: each pass leaves fewer
  induction hsize : pending.length using Nat.strongRecOn generalizing built pending b with
  | ind size ih =>
    rw [registerAll]
    rcases registerReady_cases h.known pending with
      ⟨built₁, waiting, b₁, hok, hpass⟩ | ⟨d, e, b₁, hfails⟩
    · have hprogress : Progress declared start built₁ waiting b₁ := by
        have hall := hpass.progress hnames [] (by rwa [List.append_nil])
        rwa [List.append_nil] at hall
      rw [ReplayM.bind_of_ok hok]
      cases waiting with
      | nil => exact .nested hprogress.nests (hprogress.all_rooted hnames)
      | cons stuck rest =>
        by_cases hlt : (stuck :: rest).length < pending.length
        · simp only [hlt, dite_true]
          exact (ih _ (hsize ▸ hlt) hprogress rfl).of_sublist hpass.sublist
        · have hlength := Nat.le_antisymm hpass.sublist.length_le (Nat.not_lt.1 hlt)
          obtain ⟨rfl, hunready⟩ := hpass.stuck hlength
          simp only [hlt, dite_false]
          exact .stuck h hunready (.refl _)
    · obtain ⟨before, after, built', waiting, outer, rfl, hpass, hready⟩ := hfails.reached
      have hd : d ∈ before ++ d :: after := List.mem_append_right _ List.mem_cons_self
      -- the composables before it were registered or had to wait, so that it is the next one
      have hnext : Progress declared start built' (d :: (waiting ++ after)) _ :=
        (hpass.progress hnames (d :: after) h).perm List.perm_middle
      rw [ReplayM.bind_of_error hfails.error]
      exact .misplaced (h.pending_subset d hd) (hnext.ready hready).1 hfails.misplaced

/-- The passes register all declared composables, and then parent names lead from all of them
to one without a parent; or they end with an error about one from which they do not. -/
theorem registerAll_total (hnames : (declared.map (·.name)).Nodup)
    (hplaced : ∀ d ∈ declared, ∃ position, authorPlacement d.name d.at? = .ok position)
    (h : Progress declared start built pending b) :
    (∃ names b', registerAll declared built pending b = .ok names b' ∧
      Nests declared names start b' ∧ ∀ d ∈ declared, d.Rooted declared) ∨
    ∃ d b', registerAll declared built pending b = .error (stuckError declared d) b' ∧
      d ∈ declared ∧ ¬d.Rooted declared := by
  have hout := registerAll_registered hnames h
  generalize registerAll declared built pending b = result at hout ⊢
  cases hout with
  | nested nests rooted => exact .inl ⟨_, _, rfl, nests, rooted⟩
  | @stuck _ d _ _ _ progress unready sublist =>
    exact .inr ⟨d, _, rfl, progress.pending_subset d List.mem_cons_self,
      fun hroot => progress.not_rooted unready hroot List.mem_cons_self⟩
  | @misplaced d _ _ mem rooted misplaced =>
    obtain ⟨position, hposition⟩ := hplaced d mem
    rw [misplaced] at hposition
    cases hposition

/-- Composables with different names and well-formed positions are registered exactly when
parent names lead from each of them to one without a parent.  Then each of them is registered
once, as a member of the one that its parent names and with a larger number.  Else there is an
error about one of the others. -/
theorem registerComposables_iff_rooted (circuit : CircuitDef α) (b : Build α)
    (hnames : (circuit.composables.map (·.name)).Nodup)
    (hplaced : ∀ d ∈ circuit.composables,
      ∃ position, authorPlacement d.name d.at? = .ok position) :
    ((∃ names b', circuit.registerComposables b = .ok names b') ↔
      ∀ d ∈ circuit.composables, d.Rooted circuit.composables) ∧
    (∀ names b', circuit.registerComposables b = .ok names b' →
      Nests circuit.composables names b b') ∧
    ∀ e b', circuit.registerComposables b = .error e b' →
      ∃ d ∈ circuit.composables, ¬d.Rooted circuit.composables ∧
        e = stuckError circuit.composables d := by
  rw [registerComposables]
  rcases registerAll_total hnames hplaced (progress_start circuit.composables b) with
    ⟨names, b', hok, hnests, hroot⟩ | ⟨d, b', herror, hd, hnot⟩
  · rw [hok]
    refine ⟨iff_of_true ⟨names, b', rfl⟩ hroot, ?_, ?_⟩
    · rintro _ _ ⟨⟩
      exact hnests
    · rintro _ _ ⟨⟩
  · rw [herror]
    refine ⟨iff_of_false ?_ fun hroot => hnot (hroot d hd), ?_, ?_⟩
    · rintro ⟨_, _, ⟨⟩⟩
    · rintro _ _ ⟨⟩
    · rintro _ _ ⟨⟩
      exact ⟨d, hd, hnot, rfl⟩

/-- A composable is declared before the one around it. -/
def innerFirst : CircuitDef ℚ where
  name := "stages"
  composables := [{ name := "inner", parent := some "outer" }, { name := "outer" }]

/-- The outer composable is registered first, and gets the smaller number. -/
theorem innerFirst_registered :
    (innerFirst.composables.map (·.name)).Nodup ∧
      (∀ d ∈ innerFirst.composables, ∃ position, authorPlacement d.name d.at? = .ok position) ∧
      ∃ names b' inner outer, innerFirst.registerComposables (new "stages") = .ok names b' ∧
        names.lookup "inner" = some inner ∧ names.lookup "outer" = some outer ∧ outer < inner ∧
          .composable inner ∈ b'.childrenOf outer := by
  have hnames : (innerFirst.composables.map (·.name)).Nodup := by decide
  have hplaced : ∀ d ∈ innerFirst.composables,
      ∃ position, authorPlacement d.name d.at? = .ok position := by
    simp [innerFirst, authorPlacement]
  obtain ⟨hiff, hnests, -⟩ :=
    registerComposables_iff_rooted innerFirst (new "stages") hnames hplaced
  have houter : ({ name := "outer" } : ComposableDef ℚ).Rooted innerFirst.composables :=
    .outermost rfl
  have hroot : ∀ d ∈ innerFirst.composables, d.Rooted innerFirst.composables := by
    refine List.forall_mem_cons.2 ⟨?_, List.forall_mem_cons.2 ⟨houter, by simp⟩⟩
    exact .inside (List.mem_cons_of_mem _ List.mem_cons_self) rfl houter
  obtain ⟨names, b', hok⟩ := hiff.2 hroot
  obtain ⟨inner, _, hstands⟩ := (hnests names b' hok).stands _ List.mem_cons_self
  obtain ⟨outer, hlookup, rfl⟩ := Option.map_eq_some_iff.1 hstands.outer_eq
  obtain ⟨-, hlt, hmem⟩ := hstands.inside outer rfl
  exact ⟨hnames, hplaced, names, b', inner, outer, hok, hstands.lookup_eq, hlookup, hlt, hmem⟩

end CircuitDef

end Schematic
