import Schematic.Number.Binary64.Coordinate
import Schematic.Proofs.Drawing.Connections
import Schematic.Proofs.Drawing.Contents

/-!
# Leaving out repetitions

A list of wires is drawn without its repetitions: a wire stays exactly if it has a length
and no wire with a length before it has its key.  Whether the wire at one place stays
therefore depends on the wires up to that place only, and it does not matter in which
direction any of them runs.

Which places stay is described without the keys that were seen so far.  The description
and the scan are compared by adding wires at the end of a list, since the scan carries
what it has seen from the front to the back.

## Main definitions

* `Wire.hasLength` — whether the ends of a wire differ.
* `FirstOfKey`, `firstPlaces` — the places of the wires that stay.
* `turnEnds` — some of the wires run the other way.
* `Deduplicated` — what leaving out repetitions does to a list of wires.

## Main statements

* `dedupWires_concat` — what becomes of a wire that is added at the end.
* `dedupWires_eq_filterMap` — the wires that stay are those at the first places.
* `exists_firstOfKey` — every wire with a length repeats one at a first place.
* `firstPlaces_turnEnds` — the direction of a wire does not matter.
* `beq_comm_float` — equality of binary floating-point numbers is symmetric.
* `deduplicated_dedupWires` — the laws of leaving out repetitions.
-/

namespace Schematic

variable {α : Type} [Scalar α]

/-! ### The places that stay -/

/-- Whether the ends of a wire differ. -/
def Wire.hasLength (w : Wire α) : Bool := !(w.a == w.b)

/-- At place `i` stands a wire with a length, and no wire with a length before it has its key. -/
def FirstOfKey (wires : List (Wire α)) (i : Nat) : Prop :=
  ∃ w ∈ wires[i]?, w.hasLength = true ∧
    ∀ j < i, ∀ v ∈ wires[j]?, v.hasLength = true → v.key ≠ w.key

instance instDecidableFirstOfKey (wires : List (Wire α)) (i : Nat) :
    Decidable (FirstOfKey wires i) := by
  unfold FirstOfKey
  infer_instance

/-- The places of the first wires of their keys, in order. -/
def firstPlaces (wires : List (Wire α)) : List Nat :=
  (List.range wires.length).filter fun i => FirstOfKey wires i

theorem mem_firstPlaces_iff {wires : List (Wire α)} {i : Nat} :
    i ∈ firstPlaces wires ↔ FirstOfKey wires i := by
  unfold firstPlaces
  rw [List.mem_filter, List.mem_range, decide_eq_true_eq]
  constructor
  · exact And.right
  · intro h
    obtain ⟨w, hw, -⟩ := id h
    exact ⟨(List.getElem?_eq_some_iff.1 hw).1, h⟩

/-- What is added at the end changes nothing before it. -/
theorem firstOfKey_concat {wires : List (Wire α)} {w : Wire α} {i : Nat} (hi : i < wires.length) :
    FirstOfKey (wires ++ [w]) i ↔ FirstOfKey wires i := by
  unfold FirstOfKey
  rw [List.getElem?_append_left hi]
  refine exists_congr fun v => and_congr_right fun _ => and_congr_right fun _ =>
    forall₂_congr fun j hj => ?_
  rw [List.getElem?_append_left (by omega)]

/-- A wire that is added at the end is the first of its key if it has a length and its key is
new. -/
theorem firstOfKey_length {wires : List (Wire α)} {w : Wire α} :
    FirstOfKey (wires ++ [w]) wires.length ↔
      w.hasLength = true ∧ ∀ v ∈ wires, v.hasLength = true → v.key ≠ w.key := by
  unfold FirstOfKey
  rw [List.getElem?_concat_length]
  constructor
  · rintro ⟨_, ⟨⟩, hlength, hfirst⟩
    refine ⟨hlength, fun v hv => ?_⟩
    obtain ⟨j, hj, rfl⟩ := List.getElem_of_mem hv
    apply hfirst j hj
    rw [List.getElem?_append_left hj]
    exact List.getElem?_eq_getElem hj
  · rintro ⟨hlength, hfirst⟩
    refine ⟨w, rfl, hlength, fun j hj v hv => ?_⟩
    rw [List.getElem?_append_left hj] at hv
    exact hfirst v (List.mem_of_getElem? hv)

theorem firstPlaces_concat (wires : List (Wire α)) (w : Wire α) :
    firstPlaces (wires ++ [w]) = firstPlaces wires ++
      if FirstOfKey (wires ++ [w]) wires.length then [wires.length] else [] := by
  have hbefore : (List.range wires.length).filter (fun i => FirstOfKey (wires ++ [w]) i) =
      firstPlaces wires := by
    apply List.filter_congr
    intro i hi
    rw [decide_eq_decide]
    exact firstOfKey_concat (List.mem_range.1 hi)
  unfold firstPlaces at hbefore ⊢
  rw [List.length_append, List.length_singleton, List.range_succ, List.filter_append, hbefore,
    List.filter_singleton, Bool.cond_decide]

/-! ### The scan -/

/-- The scan meets the last wire with the keys of all wires before it. -/
theorem firstOfKeys_concat (seen : List WireKey) (wires : List (Wire α)) (w : Wire α) :
    firstOfKeys seen (wires ++ [w]) = firstOfKeys seen wires ++
      if w.key ∈ seen ∨ ∃ v ∈ wires, v.key = w.key then [] else [w] := by
  induction wires generalizing seen with
  | nil =>
    show firstOfKeys seen [w] = _
    unfold firstOfKeys
    simp only [firstOfKeys, List.contains_iff_mem, List.not_mem_nil, false_and, exists_false,
      or_false, List.nil_append]
  | cons v wires ih =>
    show firstOfKeys seen (v :: (wires ++ [w])) = _
    unfold firstOfKeys
    split
    · next hseen =>
      rw [ih seen]
      have hiff : (w.key ∈ seen ∨ ∃ u ∈ wires, u.key = w.key) ↔
          w.key ∈ seen ∨ ∃ u ∈ v :: wires, u.key = w.key := by
        rw [List.exists_mem_cons_iff]
        refine ⟨fun h => h.imp_right .inr, ?_⟩
        rintro (h | h | h)
        · exact .inl h
        · exact .inl (h ▸ List.contains_iff_mem.1 hseen)
        · exact .inr h
      simp only [hiff]
    · rw [ih (v.key :: seen), List.cons_append]
      have hiff : (w.key ∈ v.key :: seen ∨ ∃ u ∈ wires, u.key = w.key) ↔
          w.key ∈ seen ∨ ∃ u ∈ v :: wires, u.key = w.key := by
        rw [List.exists_mem_cons_iff, List.mem_cons, eq_comm, or_assoc]
        exact or_left_comm
      simp only [hiff]

/-- A wire that is added at the end stays if it is the first of its key. -/
theorem dedupWires_concat (wires : List (Wire α)) (w : Wire α) :
    dedupWires (wires ++ [w]) = dedupWires wires ++
      if FirstOfKey (wires ++ [w]) wires.length then [w] else [] := by
  show firstOfKeys [] ((wires ++ [w]).filter (·.hasLength)) =
    firstOfKeys [] (wires.filter (·.hasLength)) ++ _
  rw [List.filter_append, List.filter_singleton]
  simp only [firstOfKey_length]
  cases hlength : w.hasLength with
  | false => simp only [cond_false, List.append_nil, Bool.false_eq_true, false_and, if_false]
  | true =>
    rw [cond_true, firstOfKeys_concat]
    by_cases hnew : ∀ v ∈ wires, v.hasLength = true → v.key ≠ w.key
    · rw [if_neg, if_pos ⟨rfl, hnew⟩]
      rintro (h | ⟨v, hv, hkey⟩)
      · cases h
      · rw [List.mem_filter] at hv
        exact hnew v hv.1 hv.2 hkey
    · rw [if_pos, if_neg fun h => hnew h.2]
      push Not at hnew
      obtain ⟨v, hv, hv', hkey⟩ := hnew
      exact .inr ⟨v, List.mem_filter.2 ⟨hv, hv'⟩, hkey⟩

/-- The wires that stay are those at the first places, in order. -/
theorem dedupWires_eq_filterMap (wires : List (Wire α)) :
    dedupWires wires = (firstPlaces wires).filterMap (wires[·]?) := by
  -- on the end of the list, since the scan has seen what is before a wire
  induction wires using List.reverseRecOn with
  | nil => rfl
  | append_singleton wires w ih =>
    have hbefore : (firstPlaces wires).filterMap ((wires ++ [w])[·]?) =
        (firstPlaces wires).filterMap (wires[·]?) := by
      apply List.filterMap_congr
      intro i hi
      obtain ⟨v, hv, -⟩ := mem_firstPlaces_iff.1 hi
      exact List.getElem?_append_left (List.getElem?_eq_some_iff.1 hv).1
    rw [dedupWires_concat, firstPlaces_concat, List.filterMap_append, hbefore, ih]
    congr 1
    split
    · rw [List.filterMap_cons_some List.getElem?_concat_length, List.filterMap_nil]
    · rfl

/-! ### What is left out -/

/-- Every wire with a length has the key of a wire at a first place that does not come after it. -/
theorem exists_firstOfKey {wires : List (Wire α)} {i : Nat} {w : Wire α} (hw : wires[i]? = some w)
    (hlength : w.hasLength = true) :
    ∃ j ≤ i, FirstOfKey wires j ∧ ∃ v ∈ wires[j]?, v.key = w.key := by
  induction i using Nat.strongRecOn generalizing w with
  | ind i ih =>
    by_cases hfirst : FirstOfKey wires i
    · exact ⟨i, le_rfl, hfirst, w, hw, rfl⟩
    · -- an earlier wire has the key, and its own first place is earlier still
      have hearlier : ∃ j < i, ∃ v ∈ wires[j]?, v.hasLength = true ∧ v.key = w.key := by
        by_contra hnone
        push Not at hnone
        exact hfirst ⟨w, hw, hlength, hnone⟩
      obtain ⟨j, hj, v, hv, hv', hkey⟩ := hearlier
      obtain ⟨k, hk, hfirst', u, hu, hkey'⟩ := ih j hj hv hv'
      exact ⟨k, by omega, hfirst', u, hu, hkey'.trans hkey⟩

/-- Wires with lengths and different keys all stay. -/
theorem dedupWires_eq_self {wires : List (Wire α)} (hlength : ∀ w ∈ wires, w.hasLength = true)
    (hnodup : (wires.map (·.key)).Nodup) : dedupWires wires = wires := by
  induction wires using List.reverseRecOn with
  | nil => rfl
  | append_singleton wires w ih =>
    rw [List.map_append, List.nodup_append] at hnodup
    obtain ⟨hnodup, -, hdisjoint⟩ := hnodup
    rw [dedupWires_concat, ih (fun v hv => hlength v (List.mem_append_left _ hv)) hnodup,
      if_pos]
    rw [firstOfKey_length]
    refine ⟨hlength w List.mem_concat_self, fun v hv _ => ?_⟩
    exact hdisjoint _ (List.mem_map_of_mem hv) _ List.mem_cons_self

theorem hasLength_of_mem_dedupWires {wires : List (Wire α)} {w : Wire α}
    (hw : w ∈ dedupWires wires) : w.hasLength = true := by
  rw [dedupWires_eq_filterMap, List.mem_filterMap] at hw
  obtain ⟨i, hi, hw⟩ := hw
  obtain ⟨v, hv, hlength, -⟩ := mem_firstPlaces_iff.1 hi
  cases hv.symm.trans hw
  exact hlength

/-! ### The direction of a wire -/

/-- The wire from its second end to its first one. -/
def Wire.turned (w : Wire α) : Wire α := ⟨w.net, w.b, w.a⟩

/-- The wires at some of the places run the other way. -/
def turnEnds (turns : Nat → Bool) (wires : List (Wire α)) : List (Wire α) :=
  wires.mapIdx fun i w => if turns i then w.turned else w

theorem Wire.key_turned (w : Wire α) : w.turned.key = w.key := WireKey.ofEnds_comm w.b w.a

omit [Scalar α] in
theorem getElem?_turnEnds (turns : Nat → Bool) (wires : List (Wire α)) (i : Nat) :
    (turnEnds turns wires)[i]? =
      (wires[i]?).map fun w => if turns i then w.turned else w := List.getElem?_mapIdx

section Symmetric

variable (hcomm : ∀ x y : α, (x == y) = (y == x))
include hcomm

theorem Wire.hasLength_turned (w : Wire α) : w.turned.hasLength = w.hasLength := by
  show (!(w.b.x == w.a.x && w.b.y == w.a.y)) = !(w.a.x == w.b.x && w.a.y == w.b.y)
  rw [hcomm w.b.x, hcomm w.b.y]

theorem firstOfKey_turnEnds (turns : Nat → Bool) (wires : List (Wire α)) (i : Nat) :
    FirstOfKey (turnEnds turns wires) i ↔ FirstOfKey wires i := by
  -- length and key of a wire are those of the turned one, so places agree one by one
  have hlength : ∀ j (w : Wire α),
      (if turns j then w.turned else w).hasLength = w.hasLength := by
    intro j w
    split
    · exact w.hasLength_turned hcomm
    · rfl
  have hkey : ∀ j (w : Wire α), (if turns j then w.turned else w).key = w.key := by
    intro j w
    split
    · exact w.key_turned
    · rfl
  unfold FirstOfKey
  simp only [getElem?_turnEnds, Option.mem_def, Option.map_eq_some_iff, exists_exists_and_eq_and,
    forall_exists_index, and_imp, forall_apply_eq_imp_iff₂, hlength, hkey]

/-- Turning wires round does not change which places stay. -/
theorem firstPlaces_turnEnds (turns : Nat → Bool) (wires : List (Wire α)) :
    firstPlaces (turnEnds turns wires) = firstPlaces wires := by
  unfold firstPlaces
  have hsize : (turnEnds turns wires).length = wires.length := List.length_mapIdx
  simp only [firstOfKey_turnEnds hcomm, hsize]

end Symmetric

/-! ### Equality of binary floating-point numbers -/

section Binary64

open Float.Model (UnpackedFloat)

theorem compare_sign_eq_iff (s t : UnpackedFloat.Sign) :
    compare s t = .eq ↔ compare t s = .eq := by
  cases s <;> cases t <;> simp [compare]

theorem compare_parts_eq_iff (e f : Int) (m n : Nat) :
    (compare e f).then (compare m n) = .eq ↔ (compare f e).then (compare n m) = .eq := by
  simp only [Ordering.then_eq_eq, compare_eq_iff_eq]
  constructor <;> exact fun h => ⟨h.1.symm, h.2.symm⟩

/-- Numbers compare as equal in both orders or in none. -/
theorem unpackedFloat_compare_eq_iff (x y : UnpackedFloat) :
    x.compare y = some .eq ↔ y.compare x = some .eq := by
  cases x with
  | notANumber => cases y <;> simp [UnpackedFloat.compare]
  | infinity s =>
    cases y with
    | infinity t => simpa [UnpackedFloat.compare] using compare_sign_eq_iff s t
    | _ => cases s <;> simp [UnpackedFloat.compare]
  | zero s =>
    cases y with
    | infinity t | finite t => cases t <;> simp [UnpackedFloat.compare]
    | _ => simp [UnpackedFloat.compare]
  | finite s m e h =>
    cases y with
    | infinity t => cases t <;> simp [UnpackedFloat.compare]
    | finite t n f h' =>
      have hparts := compare_parts_eq_iff e f m n
      cases s <;> cases t <;> simp [UnpackedFloat.compare] <;> simpa using hparts
    | zero t => cases s <;> simp [UnpackedFloat.compare]
    | notANumber => simp [UnpackedFloat.compare]

theorem beq_comm_float (x y : Float) : (x == y) = (y == x) := by
  rw [Bool.eq_iff_iff]
  show (x.toModel.unpack.compare y.toModel.unpack == some Ordering.eq) = true ↔
    (y.toModel.unpack.compare x.toModel.unpack == some Ordering.eq) = true
  rw [beq_iff_eq, beq_iff_eq]
  exact unpackedFloat_compare_eq_iff _ _

end Binary64

/-! ### The laws -/

/-- What leaving out repetitions does to a list of wires. -/
structure Deduplicated (wires : List (Wire α)) : Prop where
  /-- The wires that stay are those at the first places, in order. -/
  kept_eq : dedupWires wires = (firstPlaces wires).filterMap (wires[·]?)
  /-- They stand in the list as they do afterwards. -/
  sublist : (dedupWires wires).Sublist wires
  /-- No two of them have one key. -/
  keys_nodup : ((dedupWires wires).map (·.key)).Nodup
  /-- A wire that is left out has no length, or it has the key of a wire before it that stays. -/
  left_out : ∀ i, ∀ w ∈ wires[i]?, i ∉ firstPlaces wires →
    (w.a == w.b) = true ∨ ∃ j < i, j ∈ firstPlaces wires ∧ ∃ v ∈ wires[j]?, v.key = w.key
  /-- If some wires run the other way, the same places stay. -/
  turned : ∀ turns : Nat → Bool, dedupWires (turnEnds turns wires) =
    (firstPlaces wires).filterMap ((turnEnds turns wires)[·]?)
  /-- Once repetitions are left out, there are none. -/
  again : dedupWires (dedupWires wires) = dedupWires wires
  /-- The wires with a length have the same keys as before, and only such wires stay. -/
  keys : (∀ w ∈ dedupWires wires, w.hasLength = true) ∧
    ∀ k, k ∈ (dedupWires wires).map (·.key) ↔ k ∈ (wires.filter (·.hasLength)).map (·.key)

/-- The laws hold if equality of coordinates is symmetric. -/
theorem deduplicated_of_beq_comm (hcomm : ∀ x y : α, (x == y) = (y == x)) (wires : List (Wire α)) :
    Deduplicated wires where
  kept_eq := dedupWires_eq_filterMap wires
  sublist := DrawingContext.dedupWires_sublist wires
  keys_nodup := DrawingContext.nodup_keys_dedupWires wires
  left_out := by
    intro i w hw hout
    rw [mem_firstPlaces_iff] at hout
    cases hends : w.a == w.b with
    | true => exact .inl rfl
    | false =>
      right
      have hlength : w.hasLength = true := by rw [Wire.hasLength, hends, Bool.not_false]
      obtain ⟨j, hj, hfirst, hkey⟩ := exists_firstOfKey hw hlength
      have hne : j ≠ i := fun h => hout (h ▸ hfirst)
      exact ⟨j, by omega, mem_firstPlaces_iff.2 hfirst, hkey⟩
  turned := by
    intro turns
    rw [dedupWires_eq_filterMap, firstPlaces_turnEnds hcomm]
  again := by
    apply dedupWires_eq_self
    · exact fun w hw => hasLength_of_mem_dedupWires hw
    · exact DrawingContext.nodup_keys_dedupWires wires
  keys := by
    refine ⟨fun w hw => hasLength_of_mem_dedupWires hw, fun k => ?_⟩
    simp only [List.mem_map, List.mem_filter]
    constructor
    · rintro ⟨w, hw, rfl⟩
      exact ⟨w, ⟨DrawingContext.mem_of_mem_dedupWires hw, hasLength_of_mem_dedupWires hw⟩, rfl⟩
    · rintro ⟨w, ⟨hw, hlength⟩, rfl⟩
      rcases exists_key_dedupWires hw with hends | hkept
      · rw [Wire.hasLength, hends] at hlength
        cases hlength
      · exact hkept

/-- Leaving out repetitions keeps the first wire of each key among those with a length, whichever
way they run; so it is for the numbers that drawings are made with, and for exact ones. -/
theorem deduplicated_dedupWires :
    (∀ wires : List (Wire Float), Deduplicated wires) ∧
      ∀ {α : Type} [Scalar α] [ExactScalar α] (wires : List (Wire α)), Deduplicated wires := by
  constructor
  · exact deduplicated_of_beq_comm beq_comm_float
  · intro α _ _ wires
    apply deduplicated_of_beq_comm
    intro x y
    rw [Bool.eq_iff_iff, ExactScalar.beq_iff, ExactScalar.beq_iff]
    exact eq_comm

/-- Wires of which the third repeats the second one the other way, up to half of a
ten-thousandth; the first has no length, the last nearly none. -/
def repeatedWires : List (Wire ℚ) :=
  [⟨0, ⟨2, 2⟩, ⟨2, 2⟩⟩, ⟨1, ⟨0, 0⟩, ⟨5, 0⟩⟩, ⟨2, ⟨5, 1 / 30000⟩, ⟨-1 / 30000, 0⟩⟩,
    ⟨0, ⟨5, 5⟩, ⟨5, 1 / 2⟩⟩, ⟨3, ⟨7, 7⟩, ⟨7, 7 + 1 / 40000⟩⟩]

theorem deduplicated_repeatedWires :
    Deduplicated repeatedWires ∧ firstPlaces repeatedWires = [1, 3, 4] := by
  constructor
  · exact deduplicated_dedupWires.2 repeatedWires
  · decide +kernel

end Schematic
