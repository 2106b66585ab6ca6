import Schematic.Proofs.Layout.Grid

/-!
# Chains of connected boxes

Every box is visited once, whatever the weights compare like.  As long as they compare as
numbers do, each box is followed by the one that is most strongly connected to it, and
the first one that is left takes over when it is connected to none.

## Main definitions

* `ComparesLinearly`, `Numeric` — weights that compare as numbers do.
* `Unvisited` — boxes that are left.
* `Follows` — which box follows another one.

## Main statements

* `foldl_stronger` — the strongest one of some candidates, the earliest of equals.
* `chainFrom_fresh` — no box is visited twice.
* `follows_of_chainFrom` — each box is followed by the right one.
* `connectivityOrder_chains` — so the order of connections is a chain of all boxes.
-/

namespace Schematic

open scoped Scalar

variable {α : Type} [Scalar α]

/-! ### Weights -/

/-- Any two of some numbers compare, and they do so in a line. -/
structure ComparesLinearly (S : Set α) : Prop where
  /-- Any two of them compare. -/
  total : ∀ a ∈ S, ∀ b ∈ S, a ≤ b ∨ b ≤ a
  /-- What is no more than something is no more than anything above. -/
  trans : ∀ a ∈ S, ∀ b ∈ S, ∀ c ∈ S, a ≤ b → b ≤ c → a ≤ c
  /-- One is less when the other one is not at most as large. -/
  lt_iff : ∀ a ∈ S, ∀ b ∈ S, a < b ↔ ¬b ≤ a

/-- Exact coordinates compare in a line. -/
theorem comparesLinearly_of_exact [ExactScalar α] (S : Set α) : ComparesLinearly S where
  total a _ b _ := by
    simp only [ExactScalar.le_iff]
    exact le_total _ _
  trans a _ b _ c _ := by
    simp only [ExactScalar.le_iff]
    exact le_trans
  lt_iff a _ b _ := by
    simp only [ExactScalar.le_iff, ExactScalar.lt_iff, not_le]

/-- Zero and the weights of a matrix. -/
def weightSet (weights : List (List α)) : Set α := {w | w = 0 ∨ ∃ row ∈ weights, w ∈ row}

/-- The weights compare as numbers do, with each other and with zero. -/
def Numeric (weights : List (List α)) : Prop := ComparesLinearly (weightSet weights)

/-- The weight between two boxes. -/
def weightAt (weights : List (List α)) (i j : ℕ) : α := (weights[i]?.getD [])[j]?.getD 0

/-- A box that has not been visited. -/
def Unvisited (weights : List (List α)) (visited : List ℕ) (k : ℕ) : Prop :=
  k < weights.length ∧ k ∉ visited

/-- The box `j` follows the box `i` when some boxes have been visited. -/
inductive Follows (weights : List (List α)) (visited : List ℕ) (i j : ℕ) : Prop
  /-- It is connected to it, as strongly as any of those that are left, and it is the first of
  those that are connected as strongly. -/
  | strongest (unvisited : Unvisited weights visited j) (positive : 0 < weightAt weights i j)
      (largest : ∀ k, Unvisited weights visited k → weightAt weights i k ≤ weightAt weights i j)
      (first : ∀ k, Unvisited weights visited k →
        weightAt weights i j ≤ weightAt weights i k → j ≤ k)
  /-- None of those that are left is connected to it, and it is the first of them. -/
  | unconnected (unvisited : Unvisited weights visited j)
      (alone : ∀ k, Unvisited weights visited k → ¬0 < weightAt weights i k)
      (first : ∀ k, Unvisited weights visited k → j ≤ k)

/-! ### The strongest connection -/

/-- The strongest one of some candidates, the earliest of equals. -/
inductive IsStrongest (cs : List (ℕ × α)) : Option (ℕ × α) → Prop
  /-- No candidate has a positive weight. -/
  | nothing (nonpos : ∀ c ∈ cs, ¬0 < c.2) : IsStrongest cs none
  /-- There is one with the largest weight, which is positive. -/
  | found {m : ℕ × α} (mem : m ∈ cs) (positive : 0 < m.2) (largest : ∀ c ∈ cs, c.2 ≤ m.2)
      (first : ∀ c ∈ cs, m.2 ≤ c.2 → m.1 ≤ c.1) : IsStrongest cs (some m)

/-- What is no stronger than the strongest one so far, and later, changes nothing. -/
theorem IsStrongest.keep {cs : List (ℕ × α)} {m c : ℕ × α} (h : IsStrongest cs (some m))
    (hle : c.2 ≤ m.2) (hlast : m.1 ≤ c.1) : IsStrongest (cs ++ [c]) (some m) := by
  cases h with
  | found mem positive largest first =>
    refine .found (List.mem_append_left _ mem) positive ?_ ?_
    · exact List.forall_mem_append.2 ⟨largest, List.forall_mem_singleton.2 hle⟩
    · exact List.forall_mem_append.2 ⟨first, List.forall_mem_singleton.2 fun _ => hlast⟩

/-- What is stronger than all candidates so far is the strongest one. -/
theorem IsStrongest.take {cs : List (ℕ × α)} {c : ℕ × α} (hpos : 0 < c.2) (hrefl : c.2 ≤ c.2)
    (hless : ∀ d ∈ cs, d.2 ≤ c.2 ∧ ¬c.2 ≤ d.2) : IsStrongest (cs ++ [c]) (some c) := by
  refine .found (by simp) hpos ?_ ?_
  · exact List.forall_mem_append.2
      ⟨fun d hd => (hless d hd).1, List.forall_mem_singleton.2 hrefl⟩
  · exact List.forall_mem_append.2
      ⟨fun d hd hcd => absurd hcd (hless d hd).2, List.forall_mem_singleton.2 fun _ => le_rfl⟩

section Strongest

variable {S : Set α} (hS : ComparesLinearly S) (hzero : 0 ∈ S)
include hS hzero

/-- What is not positive is no more than what is. -/
theorem ComparesLinearly.le_of_not_pos {a b : α} (ha : a ∈ S) (hb : b ∈ S) (hneg : ¬0 < a)
    (hpos : 0 < b) : a ≤ b ∧ ¬b ≤ a := by
  rw [hS.lt_iff 0 hzero a ha, not_not] at hneg
  rw [hS.lt_iff 0 hzero b hb] at hpos
  have hle : 0 ≤ b := (hS.total 0 hzero b hb).resolve_right hpos
  exact ⟨hS.trans a ha 0 hzero b hb hneg hle, fun hba =>
    hpos (hS.trans b hb a ha 0 hzero hba hneg)⟩

/-- One more candidate at the end is taken only if it is stronger. -/
theorem IsStrongest.append {cs : List (ℕ × α)} {best : Option (ℕ × α)} {c : ℕ × α}
    (h : IsStrongest cs best) (hcs : ∀ d ∈ cs, d.2 ∈ S) (hc : c.2 ∈ S)
    (hlast : ∀ d ∈ cs, d.1 < c.1) : IsStrongest (cs ++ [c]) (stronger best c) := by
  have hrefl : c.2 ≤ c.2 := (hS.total _ hc _ hc).elim id id
  by_cases hpos : 0 < c.2
  · have hkeep : ¬c.2 ≤ 0 := (hS.lt_iff 0 hzero _ hc).1 hpos
    cases h with
    | nothing nonpos =>
      have hchoice : stronger none c = some c := if_neg hkeep
      rw [hchoice]
      exact .take hpos hrefl fun d hd =>
        hS.le_of_not_pos hzero (hcs d hd) hc (nonpos d hd) hpos
    | @found m mem positive largest first =>
      have hm := hcs m mem
      have hchoice : stronger (some m) c = if m.2 < c.2 then some c else some m := if_neg hkeep
      rw [hchoice]
      split
      · next hlt =>
        -- it is stronger than the best one so far, and so than all others
        have hnle := (hS.lt_iff _ hm _ hc).1 hlt
        have hle := (hS.total _ hm _ hc).resolve_right hnle
        exact .take hpos hrefl fun d hd => ⟨hS.trans _ (hcs d hd) _ hm _ hc (largest d hd) hle,
          fun hcd => hnle (hS.trans _ hc _ (hcs d hd) _ hm hcd (largest d hd))⟩
      · next hnlt =>
        have hle : c.2 ≤ m.2 := not_not.1 (mt (hS.lt_iff _ hm _ hc).2 hnlt)
        exact .keep (.found mem positive largest first) hle (hlast m mem).le
  · have hskip : c.2 ≤ 0 := not_not.1 (mt (hS.lt_iff 0 hzero _ hc).2 hpos)
    have hchoice : stronger best c = best := if_pos hskip
    rw [hchoice]
    cases h with
    | nothing nonpos =>
      exact .nothing (List.forall_mem_append.2 ⟨nonpos, List.forall_mem_singleton.2 hpos⟩)
    | @found m mem positive largest first =>
      have hle := (hS.le_of_not_pos hzero hc (hcs m mem) hpos positive).1
      exact .keep (.found mem positive largest first) hle (hlast m mem).le

/-- Of some candidates in ascending order the strongest one is found. -/
theorem foldl_stronger {cs : List (ℕ × α)} (hcs : ∀ c ∈ cs, c.2 ∈ S)
    (hsorted : cs.Pairwise (·.1 < ·.1)) : IsStrongest cs (cs.foldl stronger none) := by
  induction cs using List.reverseRecOn with
  | nil => exact .nothing fun c hc => absurd hc List.not_mem_nil
  | append_singleton cs c ih =>
    obtain ⟨hcs, hc⟩ := List.forall_mem_append.1 hcs
    obtain ⟨hsorted, -, hlast⟩ := List.pairwise_append.1 hsorted
    rw [List.foldl_append]
    exact (ih hcs hsorted).append hS hzero hcs (hc c List.mem_cons_self) fun d hd =>
      hlast d hd c List.mem_cons_self

end Strongest

/-! ### Chains -/

section Chains

variable {weights : List (List α)}

/-- A chain visits boxes that were not visited before, and none of them twice. -/
theorem chainFrom_fresh (hrows : ∀ row ∈ weights, row.length ≤ weights.length) (fuel : ℕ)
    (visited : List ℕ) {next : Option ℕ} (hnext : ∀ i, next = some i → i < weights.length) :
    (chainFrom weights fuel visited next).Nodup ∧
      ∀ i ∈ chainFrom weights fuel visited next, Unvisited weights visited i := by
  induction fuel generalizing visited next with
  | zero => exact ⟨List.nodup_nil, fun i hi => absurd hi List.not_mem_nil⟩
  | succ fuel ih =>
    obtain ⟨hchain, -⟩ | ⟨p, hnew, hchain, hpick⟩ := chainFrom_succ_cases weights fuel visited next
    · rw [hchain]
      exact ⟨List.nodup_nil, fun i hi => absurd hi List.not_mem_nil⟩
    · have hp : p < weights.length := by
        rcases hpick with h | ⟨-, h, -⟩
        · exact hnext p h
        · exact h
      obtain ⟨hnodup, hrest⟩ := ih (p :: visited) fun j hj => lt_of_strongest?_row hrows hj
      rw [hchain]
      refine ⟨List.nodup_cons.2 ⟨fun hmem => (hrest p hmem).2 List.mem_cons_self, hnodup⟩, ?_⟩
      refine List.forall_mem_cons.2 ⟨⟨hp, hnew⟩, fun i hi => ?_⟩
      exact ⟨(hrest i hi).1, fun hmem => (hrest i hi).2 (List.mem_cons_of_mem _ hmem)⟩

omit [Scalar α] in
/-- The candidates are the boxes that were not visited, with their weights. -/
theorem mem_candidates_iff {visited : List ℕ} {row : List α} {k : ℕ} {w : α} :
    (k, w) ∈ (row.mapIdx fun i w => (i, w)).filter (fun c => !visited.contains c.1) ↔
      row[k]? = some w ∧ k ∉ visited := by
  simp only [List.mem_filter, List.mem_mapIdx, Prod.mk.injEq, Bool.not_eq_true',
    List.contains_eq_mem, decide_eq_false_iff_not, List.getElem?_eq_some_iff]
  constructor
  · rintro ⟨⟨i, hi, rfl, rfl⟩, hfree⟩
    exact ⟨⟨hi, rfl⟩, hfree⟩
  · rintro ⟨⟨hk, rfl⟩, hfree⟩
    exact ⟨⟨k, hk, rfl, rfl⟩, hfree⟩

omit [Scalar α] in
theorem pairwise_mapIdx_fst (row : List α) :
    (row.mapIdx fun i w => (i, w)).Pairwise (·.1 < ·.1) := by
  rw [List.pairwise_iff_getElem]
  intro i j hi hj hij
  simpa only [List.getElem_mapIdx] using hij

/-- In a square matrix each row has the weights between two boxes. -/
theorem getElem?_row (hsquare : ∀ row ∈ weights, row.length = weights.length) {i k : ℕ}
    (hi : i < weights.length) {w : α} :
    (weights[i]?.getD [])[k]? = some w ↔ k < weights.length ∧ weightAt weights i k = w := by
  have hlength : (weights[i]?.getD []).length = weights.length := by
    rw [List.getElem?_eq_getElem hi]
    exact hsquare _ (List.getElem_mem hi)
  rw [weightAt]
  generalize weights[i]?.getD [] = row at hlength ⊢
  rw [← hlength]
  by_cases hk : k < row.length
  · rw [List.getElem?_eq_getElem hk, Option.some_inj, Option.getD_some]
    exact ⟨fun h => ⟨hk, h⟩, fun h => h.2⟩
  · rw [List.getElem?_eq_none (not_lt.1 hk)]
    exact iff_of_false (by simp) fun h => hk h.1

theorem weightAt_mem (hsquare : ∀ row ∈ weights, row.length = weights.length) {i k : ℕ}
    (hi : i < weights.length) (hk : k < weights.length) :
    weightAt weights i k ∈ weightSet weights := by
  have hentry := (getElem?_row hsquare hi).2 ⟨hk, rfl⟩
  rw [List.getElem?_eq_getElem hi] at hentry
  exact .inr ⟨_, List.getElem_mem hi, List.mem_of_getElem? hentry⟩

/-- The candidates next to a box: one of them is the strongest, unless none is connected. -/
theorem strongest?_row_cases (hsquare : ∀ row ∈ weights, row.length = weights.length)
    (hnumeric : Numeric weights) (visited : List ℕ) {i : ℕ} (hi : i < weights.length) :
    (∃ j, strongest? visited (weights[i]?.getD []) = some j ∧ j ∉ visited ∧
        Follows weights visited i j) ∨
      strongest? visited (weights[i]?.getD []) = none ∧
        ∀ k, Unvisited weights visited k → ¬0 < weightAt weights i k := by
  have hmem : ∀ k, Unvisited weights visited k → (k, weightAt weights i k) ∈
      ((weights[i]?.getD []).mapIdx fun i w => (i, w)).filter fun c => !visited.contains c.1 :=
    fun k hk => mem_candidates_iff.2 ⟨(getElem?_row hsquare hi).2 ⟨hk.1, rfl⟩, hk.2⟩
  have hsorted := (pairwise_mapIdx_fst (weights[i]?.getD [])).filter
    fun c => !visited.contains c.1
  rw [strongest?]
  generalize hcs : ((weights[i]?.getD []).mapIdx fun i w => (i, w)).filter
    (fun c => !visited.contains c.1) = cs at hmem hsorted ⊢
  have hback : ∀ c ∈ cs, Unvisited weights visited c.1 ∧ weightAt weights i c.1 = c.2 := by
    rintro ⟨k, w⟩ hc
    rw [← hcs, mem_candidates_iff, getElem?_row hsquare hi] at hc
    exact ⟨⟨hc.1.1, hc.2⟩, hc.1.2⟩
  have hset : ∀ c ∈ cs, c.2 ∈ weightSet weights := fun c hc => by
    obtain ⟨hk, hw⟩ := hback c hc
    exact hw ▸ weightAt_mem hsquare hi hk.1
  have hbest := foldl_stronger hnumeric (.inl rfl) hset hsorted
  generalize cs.foldl stronger none = best at hbest
  cases hbest with
  | nothing nonpos => exact .inr ⟨rfl, fun k hk => nonpos _ (hmem k hk)⟩
  | @found m mem positive largest first =>
    obtain ⟨hm, hw⟩ := hback m mem
    refine .inl ⟨m.1, rfl, hm.2, .strongest hm (hw ▸ positive) (fun k hk => ?_) fun k hk hle => ?_⟩
    · exact hw ▸ largest _ (hmem k hk)
    · exact first _ (hmem k hk) (hw ▸ hle)

theorem Follows.congr {visited visited' : List ℕ} {i j : ℕ} (h : Follows weights visited i j)
    (hvisited : ∀ k, k ∈ visited ↔ k ∈ visited') : Follows weights visited' i j := by
  have hback : ∀ k, Unvisited weights visited' k → Unvisited weights visited k := fun k hk =>
    ⟨hk.1, mt (hvisited k).1 hk.2⟩
  have hforth : ∀ k, Unvisited weights visited k → Unvisited weights visited' k := fun k hk =>
    ⟨hk.1, mt (hvisited k).2 hk.2⟩
  cases h with
  | strongest unvisited positive largest first =>
    exact .strongest (hforth j unvisited) positive (fun k hk => largest k (hback k hk))
      fun k hk => first k (hback k hk)
  | unconnected unvisited alone first =>
    exact .unconnected (hforth j unvisited) (fun k hk => alone k (hback k hk))
      fun k hk => first k (hback k hk)

/-- The second box of a chain follows the first one. -/
theorem follows_of_chainFrom_cons (hsquare : ∀ row ∈ weights, row.length = weights.length)
    (hnumeric : Numeric weights) {fuel : ℕ} {visited : List ℕ} {i j : ℕ} {rest : List ℕ}
    (hi : i < weights.length)
    (h : chainFrom weights fuel (i :: visited)
      (strongest? (i :: visited) (weights[i]?.getD [])) = j :: rest) :
    Follows weights (i :: visited) i j := by
  cases fuel with
  | zero => cases h
  | succ fuel =>
    obtain ⟨hchain, -⟩ | ⟨p, hnew, hchain, hpick⟩ := chainFrom_succ_cases weights fuel
      (i :: visited) (strongest? (i :: visited) (weights[i]?.getD []))
    · rw [hchain] at h
      cases h
    · rw [hchain] at h
      obtain ⟨rfl, -⟩ := List.cons.inj h
      rcases strongest?_row_cases hsquare hnumeric (i :: visited) hi with
        ⟨k, hk, hfree, hfollows⟩ | ⟨hnone, halone⟩
      · -- the strongest one is no box that was visited, so that the chain goes on with it
        rcases hpick with hnext | ⟨hvisited, -⟩
        · rw [hk] at hnext
          exact Option.some.inj hnext ▸ hfollows
        · exact absurd (hvisited k hk) hfree
      · rcases hpick with hnext | ⟨-, hp, hfirst⟩
        · rw [hnone] at hnext
          cases hnext
        · exact .unconnected ⟨hp, hnew⟩ halone fun k hk => hfirst k hk.1 hk.2

/-- Each box of a chain is followed by the right one. -/
theorem follows_of_chainFrom (hsquare : ∀ row ∈ weights, row.length = weights.length)
    (hnumeric : Numeric weights) {fuel : ℕ} {visited : List ℕ} {next : Option ℕ}
    (hnext : ∀ i, next = some i → i < weights.length) {before : List ℕ} {i j : ℕ}
    {rest : List ℕ} (h : chainFrom weights fuel visited next = before ++ i :: j :: rest) :
    Follows weights (before ++ i :: visited) i j := by
  have hrows : ∀ row ∈ weights, row.length ≤ weights.length := fun row hrow =>
    (hsquare row hrow).le
  induction before generalizing fuel visited next with
  | nil =>
    obtain ⟨-, hfresh⟩ := chainFrom_fresh hrows fuel visited hnext
    rw [h] at hfresh
    have hi : i < weights.length := (hfresh i List.mem_cons_self).1
    cases fuel with
    | zero => cases h
    | succ fuel =>
      obtain ⟨hchain, -⟩ | ⟨p, -, hchain, -⟩ := chainFrom_succ_cases weights fuel visited next
      · rw [hchain] at h
        cases h
      · rw [hchain] at h
        obtain ⟨rfl, hrest⟩ := List.cons.inj h
        exact follows_of_chainFrom_cons hsquare hnumeric hi hrest
  | cons q before ih =>
    cases fuel with
    | zero => cases h
    | succ fuel =>
      obtain ⟨hchain, -⟩ | ⟨p, -, hchain, -⟩ := chainFrom_succ_cases weights fuel visited next
      · rw [hchain] at h
        cases h
      · rw [hchain] at h
        obtain ⟨rfl, hrest⟩ := List.cons.inj h
        refine (ih (fun j hj => lt_of_strongest?_row hrows hj) hrest).congr fun k => ?_
        simp only [List.mem_append, List.mem_cons]
        tauto

end Chains

/-! ### The order of connections -/

variable {weights : List (List α)}

/-- The first box comes first. -/
theorem head?_connectivityOrder (hpos : 0 < weights.length) :
    (connectivityOrder weights).head? = some 0 := by
  obtain ⟨fuel, hfuel⟩ := Nat.exists_eq_add_one_of_ne_zero hpos.ne'
  rw [connectivityOrder, hfuel]
  obtain ⟨-, hall⟩ | ⟨p, -, hchain, hnext | ⟨hvisited, -⟩⟩ :=
    chainFrom_succ_cases weights fuel [] (some 0)
  · exact absurd (hall 0 hpos) List.not_mem_nil
  · rw [hchain, hnext]
    rfl
  · exact absurd (hvisited 0 rfl) List.not_mem_nil

/-- The order of connections has every box of a square matrix once, and it begins with the
first one, whatever the weights compare like.  If they compare as numbers do, then each
box is followed by the most strongly connected one that is left. -/
theorem connectivityOrder_chains (hsquare : ∀ row ∈ weights, row.length = weights.length) :
    (connectivityOrder weights).Perm (List.range weights.length) ∧
      (0 < weights.length → (connectivityOrder weights).head? = some 0) ∧
      (Numeric weights → ∀ before i j rest,
        connectivityOrder weights = before ++ i :: j :: rest →
          Follows weights (before ++ [i]) i j) := by
  have hrows : ∀ row ∈ weights, row.length ≤ weights.length := fun row hrow =>
    (hsquare row hrow).le
  rcases Nat.eq_zero_or_pos weights.length with hnone | hpos
  · have hempty : connectivityOrder weights = [] := by rw [connectivityOrder, hnone, chainFrom]
    rw [hempty, hnone]
    exact ⟨.nil, fun hpos => absurd hpos (lt_irrefl 0), fun _ before i j rest h =>
      absurd h.symm (by simp)⟩
  · have hfirst : ∀ k, some 0 = some k → k < weights.length :=
      fun k hk => Option.some.inj hk ▸ hpos
    obtain ⟨hnodup, hfresh⟩ := chainFrom_fresh hrows weights.length [] hfirst
    refine ⟨?_, fun _ => head?_connectivityOrder hpos, fun hnumeric before i j rest h => ?_⟩
    · refine (List.perm_ext_iff_of_nodup hnodup List.nodup_range).2 fun k => ?_
      rw [List.mem_range]
      exact ⟨fun hk => (hfresh k hk).1, fun hk => mem_connectivityOrder hrows hk⟩
    · exact follows_of_chainFrom hsquare hnumeric hfirst h

/-- Boxes with connections of one strength, and boxes that keep apart. -/
def mixedWeights : List (List ℚ) :=
  [[0, 1, 3, 3], [1, 0, -2, 0], [3, -2, 0, -1], [3, 0, -1, 0]]

/-- The third box is the first of those that are connected to the first one most strongly, and
as it keeps apart from the others, the first one that is left takes over. -/
theorem connectivityOrder_mixedWeights :
    (∀ row ∈ mixedWeights, row.length = mixedWeights.length) ∧ Numeric mixedWeights ∧
      connectivityOrder mixedWeights = [0, 2, 1, 3] ∧
      (connectivityOrder mixedWeights).Perm (List.range 4) ∧
      Follows mixedWeights [0] 0 2 ∧ Follows mixedWeights [0, 2] 2 1 := by
  have hsquare : ∀ row ∈ mixedWeights, row.length = mixedWeights.length := by decide
  have hnumeric : Numeric mixedWeights := comparesLinearly_of_exact _
  obtain ⟨hperm, -, hfollows⟩ := connectivityOrder_chains hsquare
  have horder : connectivityOrder mixedWeights = [0, 2, 1, 3] := by decide +kernel
  exact ⟨hsquare, hnumeric, horder, hperm, hfollows hnumeric [] 0 2 [1, 3] horder,
    hfollows hnumeric [0] 2 1 [3] horder⟩

end Schematic
