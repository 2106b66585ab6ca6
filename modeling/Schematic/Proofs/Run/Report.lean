import Schematic.Proofs.Drawing.Findings
import Schematic.Proofs.Tables
import Schematic.Run.Report

/-!
# What the messages of a run stand for

Every message of a drawing has one category, and a report counts each message
once, under its category.  Messages about routing are those about the direct
lines of the sheet, and messages about placing those about the clusters whose
members could not be spread.

## Main definitions

* `Table.total` — the sum of the values of a table.
* `Generation.Accounted` — the messages of a drawing stand for what it shows.

## Main statements

* `Table.Sorted.total_insert` — writing an entry changes the sum by the difference.
* `Report.total_errorCounts`, `Report.find?_errorCounts` — what a report counts.
* `Report.categoryOf?_eq_some_iff` — the category that a report reads off a message.
* `Netlist.generate_accounted` — the messages of every drawing stand for what it shows.
-/

namespace Schematic

/-! ### Sums -/

namespace Table

/-- The sum of the values. -/
def total (t : Table Nat) : Nat := (t.entries.map Prod.snd).sum

/-- Writing an entry adds its value to the sum, less the one it takes the place of. -/
theorem Sorted.total_insert {t : Table Nat} (h : t.Sorted) (name : String) (value : Nat) :
    (t.insert name value).total + (t.find? name).getD 0 = t.total + value := by
  obtain ⟨es⟩ := t
  replace h : es.Pairwise fun e d => e.1 < d.1 := h
  simp only [total, Table.insert, find?]
  induction es with
  | nil => simp [insertEntry]
  | cons e es ih =>
    obtain ⟨he, hes⟩ := List.pairwise_cons.1 h
    rw [insertEntry]
    split
    · next hlt =>
      have hnew : ∀ d ∈ e :: es, name < d.1 := by
        intro d hd
        rcases List.mem_cons.1 hd with rfl | hd
        · exact hlt
        · exact String.lt_trans hlt (he d hd)
      rw [find?_eq_none_of_lt hnew, List.map_cons, List.sum_cons]
      exact Nat.add_comm value _
    · split
      · next heq =>
        rw [List.find?_cons_of_pos (by simpa using heq.symm)]
        simp only [List.map_cons, List.sum_cons, Option.map_some, Option.getD_some]
        omega
      · next hne =>
        have hsum := ih hes
        rw [List.find?_cons_of_neg (by simpa using Ne.symm hne)]
        simp only [List.map_cons, List.sum_cons]
        omega

end Table

/-! ### Counting -/

namespace Report

theorem find?_countError (counts : Table Nat) (error name : String) :
    (countError counts error).find? name =
      if categoryName error = name then some ((counts.find? name).getD 0 + 1)
      else counts.find? name := by
  rw [countError, Table.find?_insert]
  split
  · next h => rw [h]
  · rfl

theorem total_countError {counts : Table Nat} (h : counts.Sorted) (error : String) :
    (countError counts error).total = counts.total + 1 := by
  have hsum := h.total_insert (categoryName error)
    ((counts.find? (categoryName error)).getD 0 + 1)
  rw [countError]
  omega

theorem total_foldl_countError {counts : Table Nat} (h : counts.Sorted) (errors : List String) :
    (errors.foldl countError counts).total = counts.total + errors.length := by
  induction errors generalizing counts with
  | nil => rfl
  | cons error errors ih =>
    have hsorted : (countError counts error).Sorted := h.insert _ _
    rw [List.foldl_cons, ih hsorted, total_countError h, List.length_cons]
    omega

/-- The counts of a report add up to the number of its messages. -/
theorem total_errorCounts (r : Report) : r.errorCounts.total = r.errors.length :=
  (total_foldl_countError Table.sorted_empty r.errors).trans (Nat.zero_add _)

theorem find?_foldl_countError (counts : Table Nat) (errors : List String) (name : String) :
    (errors.foldl countError counts).find? name =
      if errors.countP (categoryName · = name) = 0 then counts.find? name
      else some ((counts.find? name).getD 0 + errors.countP (categoryName · = name)) := by
  induction errors generalizing counts with
  | nil => rfl
  | cons error errors ih =>
    rw [List.foldl_cons, ih, find?_countError, List.countP_cons]
    by_cases hname : categoryName error = name
    · simp only [hname, decide_true, if_true, Option.getD_some]
      split
      · next hnone => simp [hnone]
      · simp only [Nat.add_eq_zero_iff, Nat.succ_ne_self, and_false, if_false, Option.some.injEq]
        omega
    · simp [hname]

/-- A report counts the messages of a category, unless there are none. -/
theorem find?_errorCounts (r : Report) (name : String) :
    r.errorCounts.find? name =
      if r.errors.countP (categoryName · = name) = 0 then none
      else some (r.errors.countP (categoryName · = name)) := by
  rw [errorCounts, find?_foldl_countError]
  simp

/-- The category of a message is the one that it starts with. -/
theorem categoryOf?_eq_some_iff {error : String} {c : Category} :
    categoryOf? error = some c ↔ c.Heads error := by
  have hfound : ∀ {d}, categoryOf? error = some d → d.Heads error := by
    intro d hd
    rw [categoryOf?] at hd
    have hprefix := List.find?_some hd
    exact List.isPrefixOf_iff_prefix.1 hprefix
  refine ⟨hfound, fun h => ?_⟩
  cases hnone : categoryOf? error with
  | none =>
    rw [categoryOf?] at hnone
    have hall : c ∈ Category.all := by cases c <;> decide
    have hnot := List.find?_eq_none.1 hnone c hall
    exact absurd (List.isPrefixOf_iff_prefix.2 h) hnot
  | some d => rw [Category.eq_of_heads (hfound hnone) h]

variable {α : Type} [Scalar α]

/-- A finding is counted under its category. -/
theorem categoryName_text (f : Finding α) : categoryName f.text = f.category.name := by
  rw [categoryName, categoryOf?_eq_some_iff.2 (Category.heads_text_iff.2 rfl)]
  rfl

/-- Nothing that is found in a drawing is counted as something else. -/
theorem find?_other (source : String) (g : Generation α) :
    (ofGeneration source g).errorCounts.find? "other" = none := by
  rw [find?_errorCounts, if_pos]
  refine List.countP_eq_zero.2 fun m hm hother => ?_
  obtain ⟨f, -, rfl⟩ := List.mem_map.1 hm
  replace hother := of_decide_eq_true hother
  rw [categoryName_text] at hother
  cases hcategory : f.category <;> rw [hcategory] at hother <;> exact absurd hother (by decide)

end Report

/-! ### Drawings -/

variable {α : Type} [Scalar α]

/-- The messages of a drawing of a circuit stand for what it shows. -/
structure Generation.Accounted (n : Netlist α) (symbols : SymbolSource α) (config : Config α)
    (g : Generation α) : Prop where
  /-- Every message starts with exactly one category. -/
  heads : ∀ m ∈ g.findings.map (·.text), ∃! c : Category, c.Heads m
  /-- The connections are those that the router found, and direct lines where it failed and
  that was reported. -/
  drawn : ∃ taken failures,
    (DrawingContext.ofNetlist g.netlist symbols config).Reported taken g.sheet.routes failures ∧
      g.messages .router = failures.map (·.text)
  /-- The messages about routing are those about the direct lines, in order. -/
  router : List.Forall₂ (fun r m => ∃ e : RouteError α,
      m = "[router] net " ++ g.netlist.netName r.net ++ " (" ++ g.netlist.pinLabel r.source ++
        " to " ++ g.netlist.pinLabel r.target ++ "): " ++ e.message ++ "; drew a direct line")
    (g.sheet.routes.filter (·.fallback)) (g.messages .router)
  /-- The messages about placing are those about the clusters that fail to spread. -/
  placement : ∃ failing : List (NodeId × SeparationFailure α),
    let t := ClusterTree.ofMembers n n.electrical
    let ctx := n.layoutContext symbols config.placement
    (failing.map Prod.fst).Nodup ∧
      (∀ u failure, (u, failure) ∈ failing ↔ t.FailsToSpread ctx u failure) ∧
      g.messages .placement =
        failing.map fun e => "[placement] " ++ (t.placementError ctx e.1 e.2).message
  /-- The counts of a report on it add up to the number of messages. -/
  total : ∀ source, (Report.ofGeneration source g).errorCounts.total = g.findings.length
  /-- No message is counted without a category. -/
  none_other : ∀ source, (Report.ofGeneration source g).errorCounts.find? "other" = none

/-- The messages of every drawing stand for what it shows. -/
theorem Netlist.generate_accounted (n : Netlist α) (symbols : SymbolSource α) (config : Config α) :
    (n.generate symbols config).Accounted n symbols config where
  heads m hm := by
    obtain ⟨f, -, rfl⟩ := List.mem_map.1 hm
    refine ⟨f.category, Category.heads_text_iff.2 rfl, ?_⟩
    intro c hc
    exact (Category.heads_text_iff.1 hc).symm
  drawn := by
    obtain ⟨taken, hreported⟩ := (n.drawingContext symbols config).reported_sheet
    exact ⟨taken, _, hreported, n.messages_router symbols config⟩
  router := by
    obtain ⟨taken, hreported⟩ := (n.drawingContext symbols config).reported_sheet
    rw [n.messages_router, List.forall₂_map_right_iff]
    refine hreported.forall₂.imp fun r f hf => ?_
    obtain ⟨e, rfl⟩ := hf
    exact ⟨e, Finding.text_unrouted ..⟩
  placement := by
    obtain ⟨failing, hnodup, hmem, herrors⟩ := n.exists_place_errors symbols config.placement
    refine ⟨failing, hnodup, hmem, ?_⟩
    rw [n.messages_placement, herrors, List.map_map]
    rfl
  total source := by
    rw [Report.total_errorCounts]
    exact List.length_map _
  none_other source := Report.find?_other source _

end Schematic
