import Schematic.Document.SheetDocument

/-!
# The identifiers in a document

A document is made by a function that is told the identifier of each key.  Read
from the front, the identifiers that stand in it are those of the keys of the
sheet, in the order in which the sheet lists them; and the document depends on
nothing else that the function says.

## Main definitions

* `SExpr.uuids` — the identifiers in a document.

## Main statements

* `Sheet.uuids_document` — the identifiers of a sheet are those of its keys.
* `Sheet.document_congr` — a document depends on the identifiers of its keys alone.
-/

namespace Schematic

variable {α : Type}

/-! ### Looking for identifiers -/

namespace SExpr

mutual

/-- The identifiers in a document, from the front. -/
def uuids : SExpr α → List String
  | .list xs =>
      (if (SExpr.list xs).head? = some "uuid" then (SExpr.list xs).value?.toList else []) ++
        uuidsOf xs
  | .symbol _ | .string _ | .number _ => []

/-- The identifiers in the members of a list. -/
def uuidsOf : List (SExpr α) → List String
  | [] => []
  | x :: xs => uuids x ++ uuidsOf xs

end

@[simp] theorem uuids_symbol (text : String) : (SExpr.symbol text : SExpr α).uuids = [] := by
  rw [uuids]

@[simp] theorem uuids_string (text : String) : (SExpr.string text : SExpr α).uuids = [] := by
  rw [uuids]

@[simp] theorem uuids_number (value : α) : (SExpr.number value).uuids = [] := by rw [uuids]

theorem uuidsOf_eq_flatMap (xs : List (SExpr α)) : uuidsOf xs = xs.flatMap uuids := by
  induction xs with
  | nil => rfl
  | cons x xs ih => rw [uuidsOf, ih, List.flatMap_cons]

/-- A record that is no identifier has those of its parts. -/
@[simp] theorem uuids_record {head : String} (h : head ≠ "uuid") (items : List (SExpr α)) :
    (record head items).uuids = items.flatMap uuids := by
  have hhead : ¬ (SExpr.list (.symbol head :: items)).head? = some "uuid" := fun heq =>
    h (Option.some.inj heq)
  rw [record, uuids, if_neg hhead, uuidsOf, uuids_symbol, uuidsOf_eq_flatMap]
  rfl

@[simp] theorem uuids_uuidRecord (id : String) : (uuidRecord id : SExpr α).uuids = [id] := by
  rw [uuidRecord, flag, record, uuids, if_pos (by rfl), uuidsOf_eq_flatMap]
  simp [value?, text?]

@[simp] theorem uuids_field {head : String} (h : head ≠ "uuid") (value : String) :
    (field head value : SExpr α).uuids = [] := by
  simp [field, h]

@[simp] theorem uuids_flag {head : String} (h : head ≠ "uuid") (value : String) :
    (flag head value : SExpr α).uuids = [] := by
  simp [flag, h]

end SExpr

/-! ### The identifiers of a sheet -/

@[simp] theorem uuids_numbers {head : String} (h : head ≠ "uuid") (values : List α) :
    (numbers head values).uuids = [] := by
  rw [numbers, SExpr.uuids_record h, List.flatMap_map]
  exact List.flatMap_eq_nil_iff.2 fun v _ => SExpr.uuids_number v

@[simp] theorem uuids_yesNo {head : String} (h : head ≠ "uuid") (yes : Bool) :
    (yesNo head yes : SExpr α).uuids = [] := by
  simp [yesNo, h]

@[simp] theorem uuids_placementRecord (x y rotation : α) :
    (placementRecord x y rotation).uuids = [] := by
  simp [placementRecord]

@[simp] theorem uuids_strokeRecord (width : α) : (strokeRecord width).uuids = [] := by
  simp [strokeRecord]

@[simp] theorem uuids_pinRecord (number id : String) :
    (pinRecord number id : SExpr α).uuids = [id] := by
  simp [pinRecord]

section Records

variable [Scalar α]

@[simp] theorem uuids_effectsRecord (hide : Bool) : (effectsRecord hide : SExpr α).uuids = [] := by
  cases hide <;> simp [effectsRecord]

@[simp] theorem uuids_propertyRecord (key value : String) (x y : α) (hide : Bool) :
    (propertyRecord key value x y hide).uuids = [] := by
  simp [propertyRecord]

@[simp] theorem uuids_instancesRecord (project sheetId reference : String) :
    (instancesRecord project sheetId reference : SExpr α).uuids = [] := by
  simp [instancesRecord]

@[simp] theorem uuids_symbolPinRecord (power : Bool) (p : SymbolPin α) :
    (symbolPinRecord power p).uuids = [] := by
  simp [symbolPinRecord]

/-- Definitions of symbols have no identifiers. -/
@[simp] theorem uuids_libraryRecord (id : String) (symbol : Option (Symbol α)) :
    (libraryRecord id symbol).uuids = [] := by
  have hpower : ∀ power : Bool, (if power then [SExpr.record "power" []] else
      [] : List (SExpr α)).flatMap SExpr.uuids = [] := by
    intro power
    cases power <;> simp
  cases symbol with
  | none => simp [libraryRecord]
  | some s =>
    cases s.body <;> simp [libraryRecord, hpower, bodyRecord]

variable (idOf : String → String)

theorem uuids_wireRecord (w : Wire α) : (wireRecord idOf w).uuids = [idOf w.key.text] := by
  simp [wireRecord]

theorem uuids_noConnectRecord (f : NoConnectFlag α) :
    (noConnectRecord idOf f).uuids = [idOf f.key] := by
  simp [noConnectRecord]

/-- A symbol has its own identifier and those of its pins. -/
theorem SymbolInstance.uuids_record (project sheetId : String) (i : SymbolInstance α) :
    (i.record project sheetId idOf).uuids = (i.reference :: i.pins.map i.pinKey).map idOf := by
  have hpins : (i.pins.map fun n => (pinRecord n (idOf (i.pinKey n)) : SExpr α)).flatMap
      SExpr.uuids = (i.pins.map i.pinKey).map idOf := by
    rw [List.flatMap_map, List.map_map, List.map_eq_flatMap]
    simp only [uuids_pinRecord, Function.comp_apply]
  rw [record, SExpr.uuids_record (by decide)]
  simp [hpins]

/-- A power symbol has its own identifier and that of its pin. -/
theorem PowerSymbol.uuids_record (project sheetId reference : String) (p : PowerSymbol α) :
    (p.record project sheetId idOf reference).uuids = [p.key, p.pinKey].map idOf := by
  simp [PowerSymbol.record]

namespace Sheet

variable (s : Sheet α) (symbols : SymbolSource α)

/-- The identifiers in the document of a sheet are those of its keys, in their order. -/
theorem uuids_document : (s.document symbols idOf).uuids = s.keys.map idOf := by
  have hpower : (s.power.mapIdx fun i p => p.record s.name (idOf sheetKey) idOf
      (powerReference i)).flatMap SExpr.uuids =
        (s.power.flatMap fun p => [p.key, p.pinKey]).map idOf := by
    have hzip : (s.power.zipIdx.map Prod.fst).flatMap (fun p => [p.key, p.pinKey].map idOf) =
        s.power.zipIdx.flatMap fun e => [e.1.key, e.1.pinKey].map idOf := List.flatMap_map ..
    rw [List.zipIdx_map_fst] at hzip
    rw [List.mapIdx_eq_zipIdx_map, List.flatMap_map, List.map_flatMap, hzip]
    exact congrArg (s.power.zipIdx.flatMap ·) (funext fun e => PowerSymbol.uuids_record idOf ..)
  have hlibrary : (s.usedSymbols.map fun id => libraryRecord id (symbols id)).flatMap SExpr.uuids =
      [] := by
    simp [List.flatMap_map]
  have hwires : (s.wires.map (wireRecord idOf)).flatMap SExpr.uuids =
      (s.wires.map fun w => w.key.text).map idOf := by
    rw [List.flatMap_map, List.map_map, List.map_eq_flatMap]
    exact congrArg (s.wires.flatMap ·) (funext fun w => uuids_wireRecord idOf w)
  have hflags : (s.noConnects.map (noConnectRecord idOf)).flatMap SExpr.uuids =
      (s.noConnects.map (·.key)).map idOf := by
    rw [List.flatMap_map, List.map_map, List.map_eq_flatMap]
    exact congrArg (s.noConnects.flatMap ·) (funext fun f => uuids_noConnectRecord idOf f)
  have hsymbols : (s.symbols.map (SymbolInstance.record s.name (idOf sheetKey) idOf)).flatMap
      SExpr.uuids = (s.symbols.flatMap fun i => i.reference :: i.pins.map i.pinKey).map idOf := by
    rw [List.flatMap_map, List.map_flatMap]
    exact congrArg (s.symbols.flatMap ·) (funext fun i => SymbolInstance.uuids_record idOf ..)
  rw [document, SExpr.uuids_record (by decide)]
  simp only [List.flatMap_append, hwires, hflags, hsymbols, hpower]
  simp [hlibrary, keys]

/-- A document depends on the identifiers of its keys alone. -/
theorem document_congr {f g : String → String} (h : ∀ key ∈ s.keys, f key = g key) :
    s.document symbols f = s.document symbols g := by
  simp only [keys, List.mem_append, List.mem_cons, or_imp, forall_and, forall_eq] at h
  obtain ⟨⟨⟨⟨hsheet, hwires⟩, hflags⟩, hsymbols⟩, hpower⟩ := h
  have hwires : s.wires.map (wireRecord f) = s.wires.map (wireRecord g) := by
    refine List.map_congr_left fun w hw => ?_
    rw [wireRecord, hwires _ (List.mem_map_of_mem hw), wireRecord]
  have hflags : s.noConnects.map (noConnectRecord f) = s.noConnects.map (noConnectRecord g) := by
    refine List.map_congr_left fun x hx => ?_
    rw [noConnectRecord, hflags _ (List.mem_map_of_mem hx), noConnectRecord]
  have hsymbols : s.symbols.map (SymbolInstance.record s.name (g sheetKey) f) =
      s.symbols.map (SymbolInstance.record s.name (g sheetKey) g) := by
    refine List.map_congr_left fun i hi => ?_
    have hkeys : ∀ key ∈ i.reference :: i.pins.map i.pinKey, f key = g key := fun key hkey =>
      hsymbols key (List.mem_flatMap.2 ⟨i, hi, hkey⟩)
    obtain ⟨hreference, hpins⟩ := List.forall_mem_cons.1 hkeys
    have hrecords : (i.pins.map fun n => (pinRecord n (f (i.pinKey n)) : SExpr α)) =
        i.pins.map fun n => pinRecord n (g (i.pinKey n)) :=
      List.map_congr_left fun n hn => by rw [hpins _ (List.mem_map_of_mem hn)]
    rw [SymbolInstance.record, hreference, hrecords, SymbolInstance.record]
  have hpower : (s.power.mapIdx fun i p => p.record s.name (g sheetKey) f (powerReference i)) =
      s.power.mapIdx fun i p => p.record s.name (g sheetKey) g (powerReference i) := by
    refine List.mapIdx_eq_mapIdx_iff.2 fun i hi => ?_
    have hkeys : ∀ key ∈ [s.power[i].key, s.power[i].pinKey], f key = g key := fun key hkey =>
      hpower key (List.mem_flatMap.2 ⟨_, List.getElem_mem hi, hkey⟩)
    simp only [List.forall_mem_cons] at hkeys
    obtain ⟨hkey, hpin, -⟩ := hkeys
    rw [PowerSymbol.record, hkey, hpin, PowerSymbol.record]
  simp only [document, hsheet, hwires, hflags, hsymbols, hpower]

end Sheet

end Records

end Schematic
