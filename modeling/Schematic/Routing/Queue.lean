/-!
# Priority queues

A queue hands out its members smallest first.  It is kept as a leftist heap:
every branch has a member that is not larger than those below it, and the right
branch is the shallower one.

## Main definitions

* `Queue` — queues of members of type `β`.
* `Queue.insert`, `Queue.pop?` — adding a member, taking the smallest one.
* `Queue.toList` — the members.

## Main statements

* `Queue.size_insert`, `Queue.size_of_pop?` — how the operations change the
  number of members.
* `Queue.mem_insert`, `Queue.mem_pop?` — how the operations change the members.
-/

namespace Schematic

/-- A leftist heap.  Each node keeps its rank, the distance to the nearest empty
branch. -/
inductive Queue (β : Type) where
  /-- No members. -/
  | empty
  /-- A member that is not larger than those in its branches. -/
  | node (rank : Nat) (value : β) (left right : Queue β)
  deriving Repr

namespace Queue

variable {β : Type}

instance : EmptyCollection (Queue β) := ⟨.empty⟩

instance : Inhabited (Queue β) := ⟨∅⟩

/-- The distance to the nearest empty branch. -/
def rank : Queue β → Nat
  | .empty => 0
  | .node r .. => r

/-- The number of members. -/
def size : Queue β → Nat
  | .empty => 0
  | .node _ _ l r => l.size + r.size + 1

/-- The members, in no particular order. -/
def toList : Queue β → List β
  | .empty => []
  | .node _ v l r => v :: (l.toList ++ r.toList)

/-- A node over two branches, the shallower one on the right. -/
def join (v : β) (a b : Queue β) : Queue β :=
  if b.rank ≤ a.rank then .node (b.rank + 1) v a b else .node (a.rank + 1) v b a

/-- All members of two queues; `before` is the order of the members. -/
@[specialize] def merge (before : β → β → Bool) : Queue β → Queue β → Queue β
  | .empty, b => b
  | a, .empty => a
  | .node ra x la xa, .node rb y lb yb =>
      if before y x then join y lb (merge before (.node ra x la xa) yb)
      else join x la (merge before xa (.node rb y lb yb))
termination_by a b => a.size + b.size
decreasing_by all_goals simp only [size]; omega

/-- Add a member. -/
@[specialize] def insert (before : β → β → Bool) (v : β) (q : Queue β) : Queue β :=
  merge before (.node 1 v .empty .empty) q

/-- Take the smallest member. -/
@[specialize] def pop? (before : β → β → Bool) : Queue β → Option (β × Queue β)
  | .empty => none
  | .node _ v l r => some (v, merge before l r)

theorem size_join (v : β) (a b : Queue β) : (join v a b).size = a.size + b.size + 1 := by
  unfold join; split <;> simp only [size]; omega

theorem size_merge (before : β → β → Bool) (a b : Queue β) :
    (merge before a b).size = a.size + b.size := by
  fun_induction merge before a b with
  | case1 b => simp [size]
  | case2 a => simp [size]
  | case3 ra x la xa rb y lb yb h ih => simp only [size_join, size] at ih ⊢; omega
  | case4 ra x la xa rb y lb yb h ih => simp only [size_join, size] at ih ⊢; omega

theorem toList_join_perm (v : β) (a b : Queue β) :
    (join v a b).toList.Perm (v :: (a.toList ++ b.toList)) := by
  unfold join
  split
  · exact .refl _
  · exact List.perm_append_comm.cons v

/-- Merging neither drops members nor adds any. -/
theorem toList_merge_perm (before : β → β → Bool) (a b : Queue β) :
    (merge before a b).toList.Perm (a.toList ++ b.toList) := by
  fun_induction merge before a b with
  | case1 b => exact .refl _
  | case2 a => simp [toList]
  | case3 ra x la xa rb y lb yb _ ih =>
    let left := (Queue.node ra x la xa).toList
    refine (toList_join_perm ..).trans ?_
    refine ((ih.append_left lb.toList).cons y).trans ?_
    have hswap : (lb.toList ++ (left ++ yb.toList)).Perm (left ++ (lb.toList ++ yb.toList)) := by
      rw [← List.append_assoc, ← List.append_assoc]
      exact List.perm_append_comm.append_right _
    exact (hswap.cons y).trans List.perm_middle.symm
  | case4 ra x la xa rb y lb yb _ ih =>
    refine (toList_join_perm ..).trans ?_
    refine ((ih.append_left la.toList).cons x).trans ?_
    rw [toList, toList, List.cons_append, List.append_assoc]

theorem mem_insert (before : β → β → Bool) {u v : β} {q : Queue β} :
    u ∈ (insert before v q).toList ↔ u = v ∨ u ∈ q.toList := by
  rw [insert, (toList_merge_perm before _ q).mem_iff]
  simp [toList]

/-- The member taken out was in the queue, and so were the ones that stay. -/
theorem mem_pop? (before : β → β → Bool) {q : Queue β} {r : β × Queue β}
    (h : q.pop? before = some r) {u : β} : u ∈ q.toList ↔ u = r.1 ∨ u ∈ r.2.toList := by
  cases q with
  | empty => simp [pop?] at h
  | node k v a b =>
    simp only [pop?, Option.some.injEq] at h
    subst h
    rw [toList, List.mem_cons, (toList_merge_perm before a b).mem_iff]

/-- Adding a member makes a queue larger by one. -/
theorem size_insert (before : β → β → Bool) (v : β) (q : Queue β) :
    (insert before v q).size = q.size + 1 := by
  simp only [insert, size_merge, size]; omega

/-- Taking a member makes a queue smaller by one. -/
theorem size_of_pop? (before : β → β → Bool) {q : Queue β} {r : β × Queue β}
    (h : q.pop? before = some r) : r.2.size + 1 = q.size := by
  cases q with
  | empty => simp [pop?] at h
  | node k v a b =>
    simp only [pop?, Option.some.injEq] at h
    subst h
    simp only [size_merge, size]

end Queue

end Schematic
