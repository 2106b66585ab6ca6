import Mathlib.Data.List.Perm.Subperm
import Schematic.Proofs.Symbol.Lineage
import Schematic.Proofs.Tables

/-!
# Bases first

The walk over definitions goes from each one to its bases and writes them down
on the way back.  What is on the way is a chain of definitions that lead to the
one that is visited.  If the walk meets one of them again they lie on a cycle,
and since they are different the walk is never longer than the list.

## Main definitions

* `SymbolDef.Indexes` — a table finds the definitions of a list.
* `SymbolDef.BasesFirst` — definitions written down after their bases.
* `SymbolDef.Blames` — what an error says of the definitions.
* `SymbolDef.Walk.Sound`, `SymbolDef.Walk.LeadsTo` — what is so of a walk at every visit.

## Main statements

* `SymbolDef.BasesFirst.grounded` — what has been written down has a chain that ends.
* `SymbolDef.visit_outcome`, `SymbolDef.visitAll_outcome` — what one visit does, and the walk.
* `SymbolDef.visit_more`, `SymbolDef.visitAll_more` — the walk does not run out of steps.
-/

namespace Schematic

namespace SymbolDef

variable {α : Type} {defs : List (SymbolDef α)} {table : Table (SymbolDef α)}
  {d b : SymbolDef α} {w : Walk α}

/-- A table finds the definitions of a list by their names. -/
def Indexes (table : Table (SymbolDef α)) (defs : List (SymbolDef α)) : Prop :=
  ∀ id d, table.find? id = some d ↔ d ∈ defs ∧ d.id = id

/-- Definitions written down after their bases, the last one first. -/
inductive BasesFirst (defs : List (SymbolDef α)) : List (SymbolDef α) → Prop where
  /-- Nothing has been written down. -/
  | nil : BasesFirst defs []
  /-- A listed definition is written down when its base has been. -/
  | cons {d : SymbolDef α} {order : List (SymbolDef α)} (listed : d ∈ defs)
      (base : ∀ id, d.base = some id → ∃ b ∈ order, b.id = id) (before : BasesFirst defs order) :
      BasesFirst defs (d :: order)

/-- An error is right about the definitions. -/
def Blames (defs : List (SymbolDef α)) : SymbolError → Prop
  | .unknownBase symbol base =>
      (∃ d ∈ defs, d.id = symbol ∧ d.base = some base) ∧ ∀ b ∈ defs, b.id ≠ base
  | .inheritanceCycle symbol =>
      ∃ d ∈ defs, d.id = symbol ∧ Relation.TransGen (Extends defs) d d

/-! ### Definitions that are written down -/

theorem BasesFirst.mem {order : List (SymbolDef α)} (h : BasesFirst defs order)
    (hd : d ∈ order) : d ∈ defs := by
  induction h with
  | nil => cases hd
  | cons listed _ _ ih =>
    rcases List.mem_cons.1 hd with rfl | hd
    · exact listed
    · exact ih hd

/-- What has been written down has a chain of bases that ends. -/
theorem BasesFirst.grounded {order : List (SymbolDef α)} (h : BasesFirst defs order)
    (hd : d ∈ order) : Grounded defs d := by
  induction h generalizing d with
  | nil => cases hd
  | @cons c order listed base before ih =>
    rcases List.mem_cons.1 hd with rfl | hd
    · cases hbase : d.base with
      | none => exact .root hbase
      | some id =>
        obtain ⟨b, hb, rfl⟩ := base id hbase
        exact .step ⟨before.mem hb, hbase⟩ (ih hb)
    · exact ih hd

/-- An error is about a definition whose chain does not end. -/
theorem Blames.exists_not_grounded (distinct : (defs.map (·.id)).Nodup) {e : SymbolError}
    (h : Blames defs e) : ∃ d ∈ defs, ¬ Grounded defs d := by
  cases e with
  | unknownBase symbol base =>
    obtain ⟨⟨d, hd, -, hbase⟩, hunknown⟩ := h
    refine ⟨d, hd, fun hgrounded => ?_⟩
    cases hgrounded with
    | root bare =>
      rw [hbase] at bare
      cases bare
    | step base _ => exact hunknown _ base.1 (Option.some.inj (base.2.symm.trans hbase))
  | inheritanceCycle symbol =>
    obtain ⟨d, hd, -, hcycle⟩ := h
    exact ⟨d, hd, fun hgrounded => hgrounded.not_cyclic distinct hcycle⟩

/-! ### One visit -/

namespace Walk

/-- What is so of a walk at every visit. -/
structure Sound (defs : List (SymbolDef α)) (w : Walk α) : Prop where
  /-- The finished symbols are those that are written down. -/
  seen_iff : ∀ id, id ∈ w.seen ↔ ∃ d ∈ w.order, d.id = id
  /-- They are written down after their bases. -/
  basesFirst : BasesFirst defs w.order

/-- The definitions on the way lead to one. -/
structure LeadsTo (defs : List (SymbolDef α)) (w : Walk α) (d : SymbolDef α) : Prop where
  /-- None is there twice. -/
  nodup : w.pending.Nodup
  /-- Each has the one that is visited among its bases. -/
  extends_of_mem : ∀ id ∈ w.pending, ∃ p ∈ defs, p.id = id ∧ Relation.TransGen (Extends defs) p d

/-- A walk has come back from a visit. -/
structure Continues (defs : List (SymbolDef α)) (w w' : Walk α) : Prop where
  /-- The way is as it was. -/
  pending_eq : w'.pending = w.pending
  /-- It has been going on well. -/
  sound : w'.Sound defs
  /-- What was finished still is. -/
  subset : w.seen ⊆ w'.seen

theorem Sound.enter (h : w.Sound defs) (id : String) : (w.enter id).Sound defs := ⟨h.1, h.2⟩

theorem LeadsTo.enter (h : w.LeadsTo defs d) (hd : d ∈ defs) (hnew : d.id ∉ w.pending)
    (hb : Extends defs d b) : (w.enter d.id).LeadsTo defs b where
  nodup := List.nodup_cons.2 ⟨hnew, h.nodup⟩
  extends_of_mem id hid := by
    rcases List.mem_cons.1 hid with rfl | hid
    · exact ⟨d, hd, rfl, .single hb⟩
    · obtain ⟨p, hp, hpid, hchain⟩ := h.extends_of_mem id hid
      exact ⟨p, hp, hpid, hchain.tail hb⟩

/-- The way is never longer than the list of definitions. -/
theorem LeadsTo.length_le (h : w.LeadsTo defs d) : w.pending.length ≤ defs.length := by
  have hsubset : w.pending ⊆ defs.map (·.id) := fun id hid => by
    obtain ⟨p, hp, rfl, -⟩ := h.extends_of_mem id hid
    exact List.mem_map_of_mem hp
  have hlength := (List.Nodup.subperm h.nodup hsubset).length_le
  rwa [List.length_map] at hlength

/-- A definition whose base is finished is written down. -/
theorem Sound.finish (h : w.Sound defs) (hd : d ∈ defs)
    (hbase : ∀ id, d.base = some id → id ∈ w.seen) : (w.finish d).Sound defs where
  seen_iff id := by
    simp only [Walk.finish, List.mem_cons, h.seen_iff, exists_eq_or_imp, @eq_comm _ id]
  basesFirst := .cons hd (fun id hid => (h.seen_iff id).1 (hbase id hid)) h.basesFirst

end Walk

/-- What the answer says when some definitions have been visited: they are finished, or the
chain of bases of some definition does not end. -/
def Outcome (defs : List (SymbolDef α)) (w : Walk α) (visited : List (SymbolDef α)) :
    Except SymbolError (Walk α) → Prop
  | .ok w' => w.Continues defs w' ∧ ∀ d ∈ visited, d.id ∈ w'.seen
  | .error e => Blames defs e

section Visit

variable (htable : Indexes table defs)
include htable

/-- A visit finishes the symbol, or there is something wrong with its chain of bases. -/
theorem visit_outcome (distinct : (defs.map (·.id)).Nodup) {fuel : Nat} (hd : d ∈ defs)
    (hsound : w.Sound defs) (hway : w.LeadsTo defs d)
    (hfuel : defs.length < fuel + w.pending.length) :
    Outcome defs w [d] (visit table fuel d w) := by
  fun_induction visit table fuel d w with
  | case1 d w =>
    have := hway.length_le
    omega
  | case2 fuel d w hseen =>
    exact ⟨⟨rfl, hsound, List.Subset.refl _⟩,
      List.forall_mem_singleton.2 (List.contains_iff_mem.1 hseen)⟩
  | case3 fuel d w _ hpending =>
    -- the definition has come up again among its own bases
    obtain ⟨p, hp, hid, hchain⟩ := hway.extends_of_mem d.id (List.contains_iff_mem.1 hpending)
    obtain rfl := eq_of_id_eq distinct hp hd hid
    exact ⟨p, hp, rfl, hchain⟩
  | case4 fuel d w _ _ bare =>
    have hfinish := (hsound.enter d.id).finish hd fun id hid => nomatch bare.symm.trans hid
    exact ⟨⟨List.erase_cons_head .., hfinish, List.subset_cons_self ..⟩,
      List.forall_mem_singleton.2 List.mem_cons_self⟩
  | case5 fuel d w _ _ base hbase hfind =>
    refine ⟨⟨d, hd, rfl, hbase⟩, fun b hb hid => ?_⟩
    rw [(htable base b).2 ⟨hb, hid⟩] at hfind
    cases hfind
  | case6 fuel d w _ hnew base hbase b hfind ih =>
    obtain ⟨hb, rfl⟩ := (htable base b).1 hfind
    have hnew' : d.id ∉ w.pending := fun hmem => hnew (List.contains_iff_mem.2 hmem)
    have hout := ih hb (hsound.enter d.id) (hway.enter hd hnew' ⟨hb, hbase⟩)
      (by simp only [Walk.enter, List.length_cons]; omega)
    cases hvisit : visit table fuel b (w.enter d.id) with
    | error e =>
      rw [hvisit] at hout
      exact hout
    | ok w' =>
      rw [hvisit] at hout
      obtain ⟨hcontinues, hseen⟩ := hout
      have hfinish := hcontinues.sound.finish hd fun id hid => by
        obtain rfl := Option.some.inj (hbase.symm.trans hid)
        exact hseen b List.mem_cons_self
      refine ⟨⟨?_, hfinish, fun id hid => List.mem_cons_of_mem _ (hcontinues.subset hid)⟩,
        List.forall_mem_singleton.2 List.mem_cons_self⟩
      change w'.pending.erase d.id = w.pending
      rw [hcontinues.pending_eq]
      exact List.erase_cons_head ..

/-- Where a visit does not run out of steps it does not depend on their number. -/
theorem visit_more {fuel : Nat} (hd : d ∈ defs) (hway : w.LeadsTo defs d)
    (hfuel : defs.length < fuel + w.pending.length) :
    visit table (fuel + 1) d w = visit table fuel d w := by
  induction fuel generalizing d w with
  | zero =>
    have := hway.length_le
    omega
  | succ fuel ih =>
    rw [visit, visit]
    split
    · rfl
    · split
      · rfl
      · next hnew =>
        split
        · rfl
        · next base hbase =>
          split
          · rfl
          · next b hfind =>
            obtain ⟨hb, rfl⟩ := (htable base b).1 hfind
            have hnew' : d.id ∉ w.pending := fun hmem => hnew (List.contains_iff_mem.2 hmem)
            rw [ih hb (hway.enter hd hnew' ⟨hb, hbase⟩)
              (by simp only [Walk.enter, List.length_cons]; omega)]

end Visit

/-! ### The walk -/

theorem Walk.LeadsTo.of_eq_nil (h : w.pending = []) (d : SymbolDef α) : w.LeadsTo defs d where
  nodup := h ▸ List.nodup_nil
  extends_of_mem id hid := by
    rw [h] at hid
    cases hid

theorem Walk.Continues.trans {w' w'' : Walk α} (h : w.Continues defs w')
    (h' : w'.Continues defs w'') : w.Continues defs w'' where
  pending_eq := h'.pending_eq.trans h.pending_eq
  sound := h'.sound
  subset := List.Subset.trans h.subset h'.subset

/-- The visits of some definitions one after the other. -/
def visitAll (table : Table (SymbolDef α)) (fuel : Nat) (w : Walk α)
    (es : List (String × SymbolDef α)) : Except SymbolError (Walk α) :=
  es.foldlM (fun w e => visit table fuel e.2 w) w

section Walk

variable (distinct : (defs.map (·.id)).Nodup) (htable : Indexes table defs) {fuel : Nat}
  (hfuel : defs.length < fuel)
include distinct htable hfuel

theorem visitAll_outcome {es : List (String × SymbolDef α)} (hes : ∀ e ∈ es, e.2 ∈ defs)
    (hsound : w.Sound defs) (hpending : w.pending = []) :
    Outcome defs w (es.map Prod.snd) (visitAll table fuel w es) := by
  induction es generalizing w with
  | nil => exact ⟨⟨rfl, hsound, List.Subset.refl _⟩, nofun⟩
  | cons e es ih =>
    obtain ⟨he, hes⟩ := List.forall_mem_cons.1 hes
    have hout := visit_outcome htable distinct he hsound (.of_eq_nil hpending e.2)
      (Nat.lt_add_right _ hfuel)
    rw [visitAll, List.foldlM_cons]
    cases hvisit : visit table fuel e.2 w with
    | error err =>
      rw [hvisit] at hout
      exact hout
    | ok w' =>
      rw [hvisit] at hout
      obtain ⟨hcontinues, hseen⟩ := hout
      have hrest := ih hes hcontinues.sound (hcontinues.pending_eq.trans hpending)
      change Outcome defs w _ (visitAll table fuel w' es)
      cases hvisits : visitAll table fuel w' es with
      | error err =>
        rw [hvisits] at hrest
        exact hrest
      | ok w'' =>
        rw [hvisits] at hrest
        refine ⟨hcontinues.trans hrest.1, List.forall_mem_cons.2 ⟨?_, hrest.2⟩⟩
        exact hrest.1.subset (hseen e.2 List.mem_cons_self)

theorem visitAll_more {es : List (String × SymbolDef α)} (hes : ∀ e ∈ es, e.2 ∈ defs)
    (hsound : w.Sound defs) (hpending : w.pending = []) :
    visitAll table (fuel + 1) w es = visitAll table fuel w es := by
  induction es generalizing w with
  | nil => rfl
  | cons e es ih =>
    obtain ⟨he, hes⟩ := List.forall_mem_cons.1 hes
    have hway : w.LeadsTo defs e.2 := .of_eq_nil hpending e.2
    have hout := visit_outcome htable distinct he hsound hway (Nat.lt_add_right _ hfuel)
    rw [visitAll, visitAll, List.foldlM_cons, List.foldlM_cons,
      visit_more htable he hway (Nat.lt_add_right _ hfuel)]
    cases hvisit : visit table fuel e.2 w with
    | error err => rfl
    | ok w' =>
      rw [hvisit] at hout
      exact ih hes hout.1.sound (hout.1.pending_eq.trans hpending)

end Walk

end SymbolDef

end Schematic
