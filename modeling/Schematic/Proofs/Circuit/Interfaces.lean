import Schematic.Proofs.Circuit.Ports
import Schematic.Proofs.Circuit.WellFormed

/-!
# The interface of a composable

The interface of a composable is found by a search through its members, the members of
those and so on, which ends because members have larger numbers.  It is kept when it is
first asked for, so that it is a picture of the circuit at that moment.

## Main definitions

* `Build.Within` — what lies in a composable, at any depth.
* `Build.interfaceOf?`, `Build.answered` — the interface that is kept, and the first answer
  since the circuit was started.
* `Build.Pictures` — an interface is how a composable is connected.

## Main statements

* `Build.mem_componentsInside`, `Build.componentsInside_eq` — the search finds all that lies
  in a composable, and a deeper one finds nothing more.
* `Build.interfaceOf?_run` — the first answer is kept.
* `Build.first_interface` — the first answer, and all later ones.
-/

namespace Schematic

namespace Build

variable {α : Type} {b b' : Build α} {c : ComposableId}

/-! ### What lies in a composable -/

/-- What lies in a composable: its members, and the members of what lies in it. -/
inductive Within (b : Build α) (c : ComposableId) : Child → Prop
  /-- A member lies in a composable. -/
  | member {x : Child} (h : b.parentOf? x = some (some c)) : Within b c x
  /-- A member of a composable that lies in it. -/
  | deeper {d : ComposableId} {x : Child} (hd : Within b c (.composable d))
      (h : b.parentOf? x = some (some d)) : Within b c x

theorem Within.trans {d : ComposableId} {x : Child} (hd : b.Within c (.composable d))
    (h : b.Within d x) : b.Within c x := by
  induction h with
  | member h => exact .deeper hd h
  | deeper _ h ih => exact .deeper ih h

/-- What lies in a composable is found from above: it is a member, or lies in a member. -/
theorem within_iff {x : Child} : b.Within c x ↔ b.parentOf? x = some (some c) ∨
    ∃ d, b.parentOf? (.composable d) = some (some c) ∧ b.Within d x := by
  constructor
  · intro h
    induction h with
    | member h => exact .inl h
    | deeper _ h ih =>
      rcases ih with hd | ⟨e, he, hd⟩
      · exact .inr ⟨_, hd, .member h⟩
      · exact .inr ⟨e, he, .deeper hd h⟩
  · rintro (h | ⟨d, hd, h⟩)
    · exact .member h
    · exact (Within.member hd).trans h

theorem mem_componentsInside_succ {fuel : Nat} {k : ComponentId} :
    k ∈ b.componentsInside (fuel + 1) c ↔ .component k ∈ b.childrenOf c ∨
      ∃ d, .composable d ∈ b.childrenOf c ∧ k ∈ b.componentsInside fuel d := by
  rw [componentsInside, List.mem_flatMap]
  constructor
  · rintro ⟨_ | d, hx, hk⟩
    · rw [List.mem_singleton.1 hk]
      exact .inl hx
    · exact .inr ⟨d, hx, hk⟩
  · rintro (hk | ⟨d, hd, hk⟩)
    · exact ⟨_, hk, List.mem_singleton_self k⟩
    · exact ⟨_, hd, hk⟩

theorem childrenOf_of_size_le (h : b.composables.size ≤ c) : b.childrenOf c = [] := by
  rw [childrenOf, Array.getElem?_eq_none h]
  rfl

/-- A search that may go deep enough for a composable may do so for its members, which have
larger numbers. -/
theorem Nested.deep_of_mem (h : b.Nested) {fuel : Nat} {d : ComposableId}
    (deep : b.composables.size ≤ fuel + 1 + c) (hd : .composable d ∈ b.childrenOf c) :
    b.composables.size ≤ fuel + d := by
  have hlt : c < d := h.lt d c ((h.child_iff c _).1 hd)
  calc b.composables.size ≤ fuel + 1 + c := deep
    _ = fuel + c + 1 := Nat.add_right_comm fuel 1 c
    _ ≤ fuel + d := Nat.add_lt_add_left hlt fuel

/-- The search finds all components that lie in a composable if it may go as deep as there
are composables with larger numbers. -/
theorem mem_componentsInside (h : b.Nested) {fuel : Nat} {k : ComponentId}
    (deep : b.composables.size ≤ fuel + c) :
    k ∈ b.componentsInside fuel c ↔ b.Within c (.component k) := by
  induction fuel generalizing c with
  | zero =>
    rw [Nat.zero_add] at deep
    have hnone : ∀ x, b.parentOf? x ≠ some (some c) := by
      intro x hx
      have hmem := (h.child_iff c x).2 hx
      rw [childrenOf_of_size_le deep] at hmem
      cases hmem
    rw [within_iff]
    simp [componentsInside, hnone]
  | succ fuel ih =>
    rw [mem_componentsInside_succ, within_iff, h.child_iff]
    refine or_congr_right (exists_congr fun d => ?_)
    rw [← h.child_iff]
    exact and_congr_right fun hd => ih (h.deep_of_mem deep hd)

/-- A search that may go deep enough finds the same as a deeper one. -/
theorem componentsInside_eq (h : b.Nested) {fuel fuel' : Nat}
    (deep : b.composables.size ≤ fuel + c) (deeper : fuel ≤ fuel') :
    b.componentsInside fuel' c = b.componentsInside fuel c := by
  induction fuel generalizing c fuel' with
  | zero =>
    rw [Nat.zero_add] at deep
    cases fuel' with
    | zero => rfl
    | succ fuel' =>
      change (b.childrenOf c).flatMap _ = []
      rw [childrenOf_of_size_le deep]
      rfl
  | succ fuel ih =>
    obtain ⟨fuel', rfl⟩ := Nat.exists_eq_add_of_le' deeper
    change (b.childrenOf c).flatMap _ = (b.childrenOf c).flatMap _
    refine List.flatMap_congr ?_
    rintro (k | d) hx
    · rfl
    · exact ih (h.deep_of_mem deep hx) (Nat.le_add_left fuel fuel')

/-! ### Nets inside and outside -/

/-- A net has a functional pin of a component that lies in a composable. -/
def Enters (b : Build α) (c : ComposableId) (n : Net) : Prop :=
  ∃ p ∈ n.pins, b.isMarkerPin p = false ∧
    ∃ k key, b.site? p = some (k, key) ∧ b.Within c (.component k)

/-- A net has a functional pin of a component that does not lie in a composable. -/
def Leaves (b : Build α) (c : ComposableId) (n : Net) : Prop :=
  ∃ p ∈ n.pins, b.isMarkerPin p = false ∧
    ∃ k key, b.site? p = some (k, key) ∧ ¬b.Within c (.component k)

/-- An interface is how a composable is connected: its bridged nets are the live nets that
enter and leave it, in order, and its ports are the given ones, in the order of their
names. -/
structure Pictures (b : Build α) (c : ComposableId) (ports : String → Option NetId)
    (i : Interface) : Prop where
  /-- The bridged nets are in order. -/
  bridged_sorted : i.bridged.Pairwise (· < ·)
  /-- They are the live nets with functional pins on both sides. -/
  mem_bridged : ∀ net, net ∈ i.bridged ↔ ∃ n, b.net? net = some n ∧ b.Enters c n ∧ b.Leaves c n
  /-- The ports are in order. -/
  ports_sorted : i.ports.Pairwise fun e d => e.1 < d.1
  /-- They are the given ones. -/
  mem_ports : ∀ port net, (port, net) ∈ i.ports ↔ ports port = some net

/-- Whether a net bridges is decided by the components that were found. -/
theorem bridges_eq_true {inside : List ComponentId} {n : Net}
    (h : ∀ k, k ∈ inside ↔ b.Within c (.component k)) :
    b.bridges inside n = true ↔ b.Enters c n ∧ b.Leaves c n := by
  have hside : ∀ P : ComponentId → Bool,
      (((n.pins.filter fun p => !b.isMarkerPin p).filterMap fun p =>
        b.pins[p]?.map (·.component)).any P = true ↔ ∃ p ∈ n.pins, b.isMarkerPin p = false ∧
          ∃ k key, b.site? p = some (k, key) ∧ P k = true) := by
    intro P
    simp only [List.any_eq_true, List.mem_filterMap, List.mem_filter, Bool.not_eq_true', site?,
      Option.map_eq_some_iff]
    constructor
    · rintro ⟨_, ⟨p, ⟨hp, hfunctional⟩, x, hx, rfl⟩, hP⟩
      exact ⟨p, hp, hfunctional, _, _, ⟨x, hx, rfl⟩, hP⟩
    · rintro ⟨p, hp, hfunctional, _, _, ⟨x, hx, ⟨⟩⟩, hP⟩
      exact ⟨_, ⟨p, ⟨hp, hfunctional⟩, x, hx, rfl⟩, hP⟩
  rw [bridges, Bool.and_eq_true, hside, hside]
  simp only [List.contains_eq_mem, Bool.not_eq_true', decide_eq_true_eq, decide_eq_false_iff_not, h,
    Enters, Leaves]

/-- The live nets are in the order of their numbers. -/
theorem Numbered.liveNets_pairwise (h : b.Numbered) :
    b.liveNets.Pairwise fun n m => n.id < m.id := by
  rw [liveNets, List.pairwise_filterMap, List.pairwise_iff_getElem]
  intro i j hi hj hij n hn m hm
  have hfound : ∀ {k : Nat} {x : Net} (hk : k < b.nets.toList.length),
      id b.nets.toList[k] = some x → b.net? k = some x := by
    intro k x hk hx
    rw [net?_eq_some, ← Array.getElem?_toList, List.getElem?_eq_getElem hk]
    exact congrArg some hx
  rw [h.net i n (hfound hi hn), h.net j m (hfound hj hm)]
  exact hij

theorem Numbered.mem_liveNets (h : b.Numbered) {n : Net} :
    n ∈ b.liveNets ↔ b.net? n.id = some n := by
  constructor
  · intro hn
    obtain ⟨k, hk⟩ := exists_net?_of_mem_liveNets hn
    rwa [h.net k n hk]
  · intro hn
    exact List.mem_filterMap.2 ⟨some n, Array.mem_toList_iff.2
      (Array.mem_of_getElem? (net?_eq_some.1 hn)), rfl⟩

theorem currentInterface_ports (c : ComposableId) :
    (b.currentInterface c).ports = (b.portsOf c).entries := by
  rw [currentInterface, portsOf]
  cases b.composables[c]? <;> rfl

/-- What is computed is how a composable is connected. -/
theorem currentInterface_pictures (hnested : b.Nested) (hnumbered : b.Numbered)
    (hsorted : b.PortsSorted) (c : ComposableId) :
    b.Pictures c (b.portOf? c) (b.currentInterface c) where
  bridged_sorted := by
    rw [currentInterface, List.pairwise_map]
    exact hnumbered.liveNets_pairwise.filter _
  mem_bridged net := by
    have deep : b.composables.size ≤ b.composables.size + 1 + c := by omega
    have hinside : ∀ k, k ∈ b.componentsInside (b.composables.size + 1) c ↔
        b.Within c (.component k) := fun k => mem_componentsInside hnested deep
    simp only [currentInterface, List.mem_map, List.mem_filter, bridges_eq_true hinside,
      hnumbered.mem_liveNets]
    constructor
    · rintro ⟨n, ⟨hn, hsides⟩, rfl⟩
      exact ⟨n, hn, hsides⟩
    · rintro ⟨n, hn, hsides⟩
      obtain rfl := hnumbered.net net n hn
      exact ⟨n, ⟨hn, hsides⟩, rfl⟩
  ports_sorted := by
    rw [currentInterface_ports]
    exact hsorted c
  mem_ports port net := by
    rw [currentInterface_ports, portOf?, Table.find?_eq_some_iff (hsorted c).nodup_names]

/-! ### The interface that is kept -/

/-- The interface that is kept of a composable, if it has been asked for. -/
def interfaceOf? (b : Build α) (c : ComposableId) : Option Interface :=
  b.composables[c]?.bind (·.interface)

/-- The interface that is kept is seen without looking at members. -/
theorem overlooks_interface : Overlooks fun c : Composable α => c.interface :=
  ⟨fun _ _ => rfl, fun _ _ hinterface => hinterface⟩

theorem setPort_interfaceOf? (b : Build α) (composable : ComposableId) (name : String)
    (net : NetId) (c : ComposableId) :
    (b.setPort composable name net).interfaceOf? c = b.interfaceOf? c := by
  simp only [setPort, interfaceOf?, Array.getElem?_modify]
  split <;> cases b.composables[c]? <;> rfl

theorem setInterface_interfaceOf? {composable : ComposableId}
    (known : composable < b.composables.size) (i : Interface) (c : ComposableId) :
    (b.setInterface composable i).interfaceOf? c =
      if composable = c then some i else b.interfaceOf? c := by
  simp only [setInterface, interfaceOf?, Array.getElem?_modify]
  by_cases hc : composable = c
  · subst hc
    simp [known]
  · simp [hc]

/-- A request is answered with the interface that is kept, or with the present one, which is
kept from then on. -/
theorem interface_ok_iff {i : Interface} : interface c b = .ok i b' ↔
    c < b.composables.size ∧ (b.interfaceOf? c = some i ∧ b' = b ∨
      b.interfaceOf? c = none ∧ i = b.currentInterface c ∧ b' = b.setInterface c i) := by
  rw [interface, bind_ok_iff]
  simp only [knownComposable_ok_iff, interfaceOf?]
  cases hc : b.composables[c]? with
  | none => simp [Array.getElem?_eq_none_iff.1 hc]
  | some x =>
    have known : c < b.composables.size := (Array.getElem?_eq_some_iff.1 hc).1
    constructor
    · rintro ⟨y, _, ⟨⟨⟩, rfl⟩, hanswer⟩
      refine ⟨known, ?_⟩
      cases hx : x.interface with
      | some kept =>
        rw [hx] at hanswer
        cases hanswer
        exact .inl ⟨hx, rfl⟩
      | none =>
        rw [hx] at hanswer
        cases hanswer
        exact .inr ⟨hx, rfl, rfl⟩
    · rintro ⟨-, ⟨hkept, rfl⟩ | ⟨hnone, rfl, rfl⟩⟩
      · refine ⟨x, b', ⟨rfl, rfl⟩, ?_⟩
        rw [show x.interface = some i from hkept]
        rfl
      · refine ⟨x, b, ⟨rfl, rfl⟩, ?_⟩
        rw [show x.interface = none from hnone]
        rfl

/-! ### Answers in a run -/

/-- The interface of a composable that an operation answers. -/
def answers (b : Build α) (op : Operation α) (c : ComposableId) : Option Interface :=
  match op, op.perform b with
  | .interface id, .ok (.interface i) _ => if id = c then some i else none
  | _, _ => none

/-- The first answer to a request for the interface of a composable since the circuit was
started. -/
def answered (b : Build α) (c : ComposableId) (first : Option Interface) :
    List (Operation α) → Option Interface
  | [] => first
  | op :: ops =>
      (b.after op).answered c (if op.restarts then none else first.or (b.answers op c)) ops

theorem answers_of_error {op : Operation α} {e : ConnectError} (h : op.perform b = .error e b')
    (c : ComposableId) : b.answers op c = none := by
  cases op <;> simp [answers, h]

/-- An operation that is carried out and does not start again keeps the interface that it
answers, unless another one is kept already. -/
theorem interfaceOf?_perform {op : Operation α} {a : Answer α} (hop : op.restarts = false)
    (ok : op.perform b = .ok a b') (c : ComposableId) :
    b'.interfaceOf? c = (b.interfaceOf? c).or (b.answers op c) := by
  cases op with
  | interface composable =>
    obtain ⟨i, ok', rfl⟩ := map_ok_iff.1 ok
    obtain ⟨known, ⟨hkept, rfl⟩ | ⟨hnone, -, rfl⟩⟩ := interface_ok_iff.1 ok'
    · by_cases hc : composable = c
      · subst hc
        rw [hkept, Option.some_or]
      · simp [answers, ok, hc]
    · rw [setInterface_interfaceOf? known]
      by_cases hc : composable = c
      · subst hc
        simp [answers, ok, hnone]
      · simp [answers, ok, hc]
  | expose composable name net =>
    obtain ⟨_, ok, -⟩ := map_ok_iff.1 ok
    obtain ⟨-, -, rfl⟩ := expose_ok ok
    rw [setPort_interfaceOf?]
    exact Option.or_none.symm
  | start => cases hop
  | drain => cases hop
  | _ =>
    -- no other operation answers an interface
    rw [interfaceOf?, overlooks_interface.perform hop (by simp) (by simp) ok]
    exact Option.or_none.symm

theorem interfaceOf?_after {op : Operation α} (hop : op.restarts = false) (c : ComposableId) :
    (b.after op).interfaceOf? c = (b.interfaceOf? c).or (b.answers op c) := by
  cases hperform : op.perform b with
  | ok a b' =>
    rw [after_of_ok hperform]
    exact interfaceOf?_perform hop hperform c
  | error e b' =>
    rw [answers_of_error hperform, Option.or_none, after_of_error hperform, interfaceOf?,
      overlooks_interface.refused hperform]
    rfl

/-- After every run the first answer is kept. -/
theorem interfaceOf?_run (ops : List (Operation α)) (c : ComposableId) :
    (b.run ops).interfaceOf? c = b.answered c (b.interfaceOf? c) ops := by
  induction ops generalizing b with
  | nil => rfl
  | cons op ops ih =>
    rw [run_cons, answered, ih]
    cases hop : op.restarts with
    | true =>
      rw [after_of_restarts hop]
      rfl
    | false =>
      rw [interfaceOf?_after hop]
      rfl

/-- Without starting again, an interface that is kept stays the same. -/
theorem interfaceOf?_run_of_some {ops : List (Operation α)}
    (hops : ∀ op ∈ ops, op.restarts = false) {i : Interface} (h : b.interfaceOf? c = some i) :
    (b.run ops).interfaceOf? c = some i := by
  induction ops generalizing b with
  | nil => exact h
  | cons op ops ih =>
    refine ih (fun o ho => hops o (List.mem_cons_of_mem _ ho)) ?_
    rw [interfaceOf?_after (hops op List.mem_cons_self), h, Option.some_or]

/-- An interface that is kept is answered, and the circuit stays as it is. -/
theorem interface_of_some {i : Interface} (h : b.interfaceOf? c = some i) :
    interface c b = .ok i b := by
  obtain ⟨x, hx, -⟩ := Option.bind_eq_some_iff.1 h
  exact interface_ok_iff.2 ⟨(Array.getElem?_eq_some_iff.1 hx).1, .inl ⟨h, rfl⟩⟩

/-! ### The first answer -/

/-- A composable that has not been asked for its interface since the circuit was started
answers how it is connected at that moment: the search for components ends before it is cut
off, the bridged nets are the live nets with functional pins inside and outside, and the
ports are what was last exposed.  All later requests are answered the same, whatever is done
in between. -/
theorem first_interface (name : String) (ops : List (Operation α)) {c : ComposableId}
    (known : c < ((new name : Build α).run ops).composables.size)
    (unasked : (new name : Build α).answered c none ops = none) :
    let b := (new name : Build α).run ops
    (∀ fuel, b.composables.size < fuel →
      b.componentsInside fuel c = b.componentsInside (b.composables.size + 1) c) ∧
    ∃ i, interface c b = .ok i (b.setInterface c i) ∧
      b.Pictures c (fun port => (new name : Build α).exposed c port none ops) i ∧
      ∀ more, (∀ op ∈ more, op.restarts = false) →
        interface c ((b.setInterface c i).run more) = .ok i ((b.setInterface c i).run more) := by
  intro b
  have hwell : b.WellFormed := wellFormed_run name ops
  have hnone : b.interfaceOf? c = none := (interfaceOf?_run ops c).trans unasked
  refine ⟨?_, b.currentInterface c, interface_ok_iff.2 ⟨known, .inr ⟨hnone, rfl, rfl⟩⟩, ?_, ?_⟩
  · -- there are not enough composables for a search that would be cut off
    intro fuel hfuel
    exact componentsInside_eq hwell.forest (Nat.le_add_right_of_le (Nat.le_succ _)) hfuel
  · have hports : b.portOf? c = fun port => (new name : Build α).exposed c port none ops :=
      funext fun port => portOf?_run ops c port
    rw [← hports]
    exact currentInterface_pictures hwell.forest hwell.numbered (portsSorted_run name ops) c
  · intro more hmore
    refine interface_of_some (interfaceOf?_run_of_some hmore ?_)
    rw [setInterface_interfaceOf? known, if_pos rfl]

/-- A filter in a composable inside of another one, with a net to a part outside and a net
of its own. -/
def nestedFilter : List (Operation Int) :=
  [.addComposable "stage" none none, .addComposable "filter" (some 0) none,
    .addComponent { symbol := "Device:R", reference := "R1", parent := some 1 },
    .addComponent { symbol := "Device:C", reference := "C1", parent := some 1 },
    .addComponent { symbol := "Device:R", reference := "R2" },
    .addNet (some "own"), .addNet (some "out"), .connect 0 "1" (.net 0), .connect 1 "1" (.net 0),
    .connect 0 "2" (.net 1), .connect 2 "1" (.net 1), .expose 0 "out" 1]

/-- The outer composable is bridged by the net that leads outside, also when the other one is
tied to a part outside later on. -/
theorem nestedFilter_interface :
    let b := (new "filter").run nestedFilter
    0 < b.composables.size ∧ (new "filter").answered 0 none nestedFilter = none ∧
      ∃ i, i.bridged = [1] ∧ interface 0 b = .ok i (b.setInterface 0 i) ∧
        interface 0 ((b.setInterface 0 i).run [.connect 2 "2" (.net 0)]) =
          .ok i ((b.setInterface 0 i).run [.connect 2 "2" (.net 0)]) := by
  intro b
  have known : 0 < b.composables.size := by decide +kernel
  have unasked : (new "filter").answered 0 none nestedFilter = none := by decide +kernel
  obtain ⟨-, i, hanswer, -, hlater⟩ := first_interface "filter" nestedFilter known unasked
  refine ⟨known, unasked, i, ?_, hanswer, hlater _ (by simp [Operation.restarts])⟩
  have hcurrent : (b.currentInterface 0).bridged = [1] := by decide +kernel
  rcases (interface_ok_iff.1 hanswer).2 with ⟨hkept, -⟩ | ⟨-, rfl, -⟩
  · have hnone : b.interfaceOf? 0 = none := (interfaceOf?_run nestedFilter 0).trans unasked
    rw [hnone] at hkept
    cases hkept
  · exact hcurrent

end Build

end Schematic
