import Schematic.Proofs.Document.Uuid
import Schematic.Proofs.Drawing.Contents
import Schematic.Proofs.SExpr.Wording

/-!
# Reading a sheet back

The document of a sheet puts every text that comes from a circuit between quotes and
writes every identifier as a bare word, so whatever the texts are, and although an
identifier may start with digits, nothing in the document is read as something else.
Only numbers are rounded.

## Main definitions

* `SExpr.strings` — the quoted texts in a document.
* `SExpr.ItemTexts`, `SExpr.itemTexts` — what a document says of an item.
* `SExpr.definitionTexts` — what a document says of a symbol that it defines.
* `Sheet.ReadAs` — a document says of each item of a sheet what the sheet says.

## Main statements

* `Sheet.plain_document` — the document of a sheet is plain.
* `Sheet.readAs_reread` — what is read says of each item what the sheet says.
* `Sheet.write_reads_back` — what is written is read, and is written alike once more.
-/

namespace Schematic

open Scalar

variable {α : Type}

namespace SExpr

/-! ### Plain records -/

theorem Plain.record {head : String} (hhead : IsSymbol head) {items : List (SExpr α)}
    (h : ∀ x ∈ items, x.Plain) : (SExpr.record head items).Plain :=
  .list (List.forall_mem_cons.2 ⟨.symbol hhead, h⟩)

theorem Plain.field {head : String} (hhead : IsSymbol head) (value : String) :
    (SExpr.field head value : SExpr α).Plain :=
  .record hhead (List.forall_mem_singleton.2 (.string value))

theorem Plain.flag {head : String} (hhead : IsSymbol head) {value : String}
    (hvalue : IsSymbol value) : (SExpr.flag head value : SExpr α).Plain :=
  .record hhead (List.forall_mem_singleton.2 (.symbol hvalue))

/-! ### The quoted texts of a document -/

mutual

/-- The quoted texts in a document, from the front. -/
def strings : SExpr α → List String
  | .list xs => stringsOf xs
  | .string s => [s]
  | .symbol _ | .number _ => []

/-- The quoted texts in the members of a list. -/
def stringsOf : List (SExpr α) → List String
  | [] => []
  | x :: xs => strings x ++ stringsOf xs

end

theorem stringsOf_eq_flatMap (xs : List (SExpr α)) : stringsOf xs = xs.flatMap strings := by
  induction xs with
  | nil => rfl
  | cons x xs ih => rw [stringsOf, ih, List.flatMap_cons]

/-! ### What is said of an item -/

/-- What a document says of an item: its symbol and its identifier, its properties and its
pins with their identifiers, and the project, the sheet and the reference designator. -/
structure ItemTexts where
  /-- The symbol that it is drawn with. -/
  symbol : Option String
  /-- Its identifier. -/
  id : Option String
  /-- The names of its properties with their texts. -/
  properties : List (Option String × Option String)
  /-- The numbers of its pins with their identifiers. -/
  pins : List (Option String × Option String)
  /-- The project. -/
  project : Option String
  /-- The sheet in the project. -/
  path : Option String
  /-- The reference designator on that sheet. -/
  reference : Option String
  deriving DecidableEq

/-- What a document says of an item. -/
def itemTexts (e : SExpr α) : ItemTexts :=
  let project := (e.child? "instances").bind (·.child? "project")
  let path := project.bind (·.child? "path")
  { symbol := e.entry? "lib_id"
    id := e.entry? "uuid"
    properties := (e.children "property").map fun p => (p.value?, p.items[2]?.bind text?)
    pins := (e.children "pin").map fun p => (p.value?, p.entry? "uuid")
    project := project.bind (·.value?)
    path := path.bind (·.value?)
    reference := path.bind fun x => x.entry? "reference" }

/-- What a document says of a symbol that it defines: its name, and the names and numbers of
its pins. -/
def definitionTexts (e : SExpr α) : Option String × List (Option String × Option String) :=
  (e.value?, ((e.children "symbol").flatMap (·.children "pin")).map fun p =>
    let name := p.entry? "name"
    let number := p.entry? "number"
    (name, number))

section Reread

variable [Scalar α]

@[simp] theorem reread_symbol (text : String) :
    (SExpr.symbol text : SExpr α).reread = .symbol text := by
  rw [reread]

@[simp] theorem reread_string (text : String) :
    (SExpr.string text : SExpr α).reread = .string text := by
  rw [reread]

@[simp] theorem reread_record (head : String) (items : List (SExpr α)) :
    (record head items).reread = record head (items.map reread) := by
  rw [record, reread, rereadAll_eq_map, List.map_cons, reread_symbol, record]

@[simp] theorem reread_field (head value : String) :
    (field head value : SExpr α).reread = field head value := by
  simp [field]

@[simp] theorem reread_flag (head value : String) :
    (flag head value : SExpr α).reread = flag head value := by
  simp [flag]

theorem head?_reread {e : SExpr α} {head : String} (h : e.head? = some head) :
    e.reread.head? = some head := by
  match e, h with
  | .list (.symbol s :: xs), h => rw [reread, rereadAll, reread_symbol]; exact h

/-- The quoted texts come back. -/
theorem Plain.strings_reread {e : SExpr α} (h : e.Plain) : e.reread.strings = e.strings := by
  induction h with
  | @list xs _ ih =>
    rw [reread, rereadAll_eq_map, strings, strings, stringsOf_eq_flatMap, stringsOf_eq_flatMap,
      List.flatMap_map, List.flatMap_def, List.flatMap_def, List.map_congr_left ih]
  | symbol _ => rw [reread]
  | string s => rw [reread]
  | number v =>
    rw [reread, bareAtom]
    split <;> simp only [strings]

end Reread

end SExpr

/-! ### Plain documents -/

theorem plain_numbers {head : String} (hhead : SExpr.IsSymbol head) (values : List α) :
    (numbers head values).Plain :=
  .record hhead (List.forall_mem_map.2 fun v _ => .number v)

theorem plain_yesNo {head : String} (hhead : SExpr.IsSymbol head) (yes : Bool) :
    (yesNo head yes : SExpr α).Plain := by
  refine .flag hhead ?_
  cases yes <;> decide

theorem plain_uuidRecord {id : String} (hid : IsUuid id) : (uuidRecord id : SExpr α).Plain :=
  .flag (by decide) hid.isSymbol

theorem plain_pinRecord (number : String) {id : String} (hid : IsUuid id) :
    (pinRecord number id : SExpr α).Plain := by
  refine .record (by decide) ?_
  simp only [List.forall_mem_cons]
  exact ⟨.string _, plain_uuidRecord hid, nofun⟩

section Records

variable [Scalar α]

omit [Scalar α] in
theorem plain_placementRecord (x y rotation : α) : (placementRecord x y rotation).Plain :=
  plain_numbers (by decide) _

theorem plain_effectsRecord (hide : Bool) : (effectsRecord hide : SExpr α).Plain := by
  have hfont : (SExpr.record "font" [numbers "size" [fontSize, fontSize]] : SExpr α).Plain :=
    .record (by decide) (List.forall_mem_singleton.2 (plain_numbers (by decide) _))
  refine .record (by decide) (List.forall_mem_cons.2 ⟨hfont, ?_⟩)
  cases hide with
  | true => exact List.forall_mem_singleton.2 (.symbol (by decide))
  | false => exact nofun

theorem plain_propertyRecord (key value : String) (x y : α) (hide : Bool) :
    (propertyRecord key value x y hide).Plain := by
  refine .record (by decide) ?_
  simp only [List.forall_mem_cons]
  exact ⟨.string _, .string _, plain_placementRecord .., plain_effectsRecord _, nofun⟩

omit [Scalar α] in
theorem plain_strokeRecord (width : α) : (strokeRecord width).Plain := by
  refine .record (by decide) ?_
  simp only [List.forall_mem_cons]
  exact ⟨plain_numbers (by decide) _, .flag (by decide) (by decide), nofun⟩

theorem plain_bodyRecord (name : String) (body : Rect α) : (bodyRecord name body).Plain := by
  refine .record (by decide) ?_
  simp only [List.forall_mem_cons]
  refine ⟨.string _, .record (by decide) ?_, nofun⟩
  simp only [List.forall_mem_cons]
  exact ⟨plain_numbers (by decide) _, plain_numbers (by decide) _, plain_strokeRecord _,
    .record (by decide) (List.forall_mem_singleton.2 (.flag (by decide) (by decide))), nofun⟩

theorem plain_symbolPinRecord (power : Bool) (p : SymbolPin α) :
    (symbolPinRecord power p).Plain := by
  have hlabel : ∀ {head : String}, SExpr.IsSymbol head → ∀ text : String,
      (SExpr.record head [.string text, effectsRecord false] : SExpr α).Plain := by
    intro head hhead text
    refine .record hhead ?_
    simp only [List.forall_mem_cons]
    exact ⟨.string _, plain_effectsRecord _, nofun⟩
  refine .record (by decide) ?_
  simp only [List.forall_mem_cons]
  refine ⟨.symbol ?_, .symbol (by decide), plain_placementRecord .., plain_numbers (by decide) _,
    hlabel (by decide) _, hlabel (by decide) _, nofun⟩
  cases power <;> decide

/-- The definition of a symbol is plain, whatever its names are. -/
theorem plain_libraryRecord (id : String) (symbol : Option (Symbol α)) :
    (libraryRecord id symbol).Plain := by
  have hpower : ∀ power : Bool, ∀ x ∈ (if power then [SExpr.record "power" []] else
      [] : List (SExpr α)), x.Plain := by
    intro power
    cases power with
    | true => exact List.forall_mem_singleton.2 (.record (by decide) nofun)
    | false => exact nofun
  refine .record (by decide) ?_
  simp only [List.cons_append, List.forall_mem_cons, List.forall_mem_append]
  refine ⟨.string _, ⟨hpower _, plain_yesNo (by decide) _, plain_yesNo (by decide) _, nofun⟩, ?_⟩
  cases symbol with
  | none => exact nofun
  | some d =>
    have hpins : (SExpr.record "symbol"
        (.string (shortName id ++ "_1_1") :: d.pins.map (symbolPinRecord d.power))).Plain := by
      refine .record (by decide) (List.forall_mem_cons.2 ⟨.string _, ?_⟩)
      exact List.forall_mem_map.2 fun p _ => plain_symbolPinRecord _ p
    simp only [List.forall_mem_append, List.forall_mem_cons, Option.mem_toList,
      Option.map_eq_some_iff, forall_exists_index, and_imp]
    refine ⟨?_, hpins, nofun⟩
    rintro _ body - rfl
    exact plain_bodyRecord ..

theorem plain_instancesRecord (project sheetId reference : String) :
    (instancesRecord project sheetId reference : SExpr α).Plain := by
  refine .record (by decide) (List.forall_mem_singleton.2 (.record (by decide) ?_))
  simp only [List.forall_mem_cons]
  refine ⟨.string _, .record (by decide) ?_, nofun⟩
  simp only [List.forall_mem_cons]
  exact ⟨.string _, .field (by decide) _, plain_numbers (by decide) _, nofun⟩

variable {idOf : String → String}

theorem plain_wireRecord {w : Wire α} (hid : IsUuid (idOf w.key.text)) :
    (wireRecord idOf w).Plain := by
  refine .record (by decide) ?_
  simp only [List.forall_mem_cons]
  refine ⟨.record (by decide) ?_, plain_strokeRecord _, plain_uuidRecord hid, nofun⟩
  simp only [List.forall_mem_cons]
  exact ⟨plain_numbers (by decide) _, plain_numbers (by decide) _, nofun⟩

theorem plain_noConnectRecord {f : NoConnectFlag α} (hid : IsUuid (idOf f.key)) :
    (noConnectRecord idOf f).Plain := by
  refine .record (by decide) ?_
  simp only [List.forall_mem_cons]
  exact ⟨plain_placementRecord .., plain_uuidRecord hid, nofun⟩

theorem SymbolInstance.plain_record (project sheetId : String) {i : SymbolInstance α}
    (hid : IsUuid (idOf i.reference)) (hpins : ∀ n ∈ i.pins, IsUuid (idOf (i.pinKey n))) :
    (i.record project sheetId idOf).Plain := by
  refine .record (by decide) ?_
  simp only [List.forall_mem_append, List.forall_mem_cons, List.forall_mem_map]
  exact ⟨⟨⟨.field (by decide) _, plain_placementRecord .., plain_numbers (by decide) _,
    plain_yesNo (by decide) _, plain_yesNo (by decide) _, plain_yesNo (by decide) _,
    plain_uuidRecord hid, plain_propertyRecord .., plain_propertyRecord ..,
    plain_propertyRecord .., nofun⟩, fun n hn => plain_pinRecord n (hpins n hn)⟩,
    plain_instancesRecord .., nofun⟩

theorem PowerSymbol.plain_record (project sheetId reference : String) {p : PowerSymbol α}
    (hid : IsUuid (idOf p.key)) (hpin : IsUuid (idOf p.pinKey)) :
    (p.record project sheetId idOf reference).Plain := by
  refine .record (by decide) ?_
  simp only [List.forall_mem_cons]
  exact ⟨.field (by decide) _, plain_placementRecord .., plain_numbers (by decide) _,
    plain_yesNo (by decide) _, plain_yesNo (by decide) _, plain_yesNo (by decide) _,
    plain_uuidRecord hid, plain_propertyRecord .., plain_propertyRecord ..,
    plain_pinRecord _ hpin, plain_instancesRecord .., nofun⟩

namespace Sheet

variable {s : Sheet α} {symbols : SymbolSource α}

/-- A document is plain whose identifiers are in the form in which they are kept. -/
theorem plain_document (hids : ∀ key ∈ s.keys, IsUuid (idOf key)) :
    (s.document symbols idOf).Plain := by
  simp only [keys, List.forall_mem_append, List.forall_mem_cons, List.forall_mem_map,
    List.forall_mem_flatMap] at hids
  obtain ⟨⟨⟨⟨hsheet, hwires⟩, hflags⟩, hsymbols⟩, hpower⟩ := hids
  have hinstances : (SExpr.record "sheet_instances"
      [.record "path" [.string "/", .field "page" "1"]] : SExpr α).Plain := by
    refine .record (by decide) (List.forall_mem_singleton.2 (.record (by decide) ?_))
    simp only [List.forall_mem_cons]
    exact ⟨.string _, .field (by decide) _, nofun⟩
  have hpowered : ∀ x ∈ s.power.mapIdx fun i p =>
      p.record s.name (idOf sheetKey) idOf (powerReference i), x.Plain := by
    intro x hx
    obtain ⟨i, hi, rfl⟩ := List.mem_mapIdx.1 hx
    obtain ⟨hid, hpin, -⟩ := hpower _ (List.getElem_mem hi)
    exact PowerSymbol.plain_record _ _ _ hid hpin
  refine .record (by decide) ?_
  simp only [List.forall_mem_append, List.forall_mem_cons, List.forall_mem_map]
  exact ⟨⟨⟨⟨⟨⟨plain_numbers (by decide) _, .field (by decide) _, plain_uuidRecord hsheet,
    .field (by decide) _, .record (by decide) (List.forall_mem_map.2 fun id _ =>
      plain_libraryRecord id _), nofun⟩, fun w hw => plain_wireRecord (hwires w hw)⟩,
    fun f hf => plain_noConnectRecord (hflags f hf)⟩,
    fun i hi => SymbolInstance.plain_record _ _ (hsymbols i hi).1 (hsymbols i hi).2⟩, hpowered⟩,
    hinstances, nofun⟩

end Sheet

/-! ### What is read -/

section Reading

omit [Scalar α] in
/-- What a sheet says of the symbol of a component. -/
def SymbolInstance.texts (project : String) (idOf : String → String) (i : SymbolInstance α) :
    SExpr.ItemTexts where
  symbol := some i.symbol
  id := some (idOf i.reference)
  properties := [(some "Reference", some i.reference), (some "Value", some i.value),
    (some "Footprint", some i.footprint)]
  pins := i.pins.map fun n => (some n, some (idOf (i.pinKey n)))
  project := some project
  path := some ("/" ++ idOf Sheet.sheetKey)
  reference := some i.reference

omit [Scalar α] in
/-- What a sheet says of a power symbol, which has a number of its own. -/
def PowerSymbol.texts (project : String) (idOf : String → String) (reference : String)
    (p : PowerSymbol α) : SExpr.ItemTexts where
  symbol := some p.symbol
  id := some (idOf p.key)
  properties := [(some "Reference", some reference), (some "Value", some p.value)]
  pins := [(some "1", some (idOf p.pinKey))]
  project := some project
  path := some ("/" ++ idOf Sheet.sheetKey)
  reference := some reference

variable (idOf)

@[simp] theorem reread_uuidRecord (id : String) :
    (uuidRecord id : SExpr α).reread = uuidRecord id :=
  SExpr.reread_flag ..

@[simp] theorem reread_pinRecord (number id : String) :
    (pinRecord number id : SExpr α).reread = pinRecord number id := by
  simp [pinRecord]

omit [Scalar α] in
@[simp] theorem head?_pinRecord (number id : String) :
    (pinRecord number id : SExpr α).head? = some "pin" := rfl

omit [Scalar α] in
@[simp] theorem head?_uuidRecord (id : String) :
    (uuidRecord id : SExpr α).head? = some "uuid" := rfl

omit [Scalar α] in
@[simp] theorem value?_uuidRecord (id : String) : (uuidRecord id : SExpr α).value? = some id := rfl

omit [Scalar α] in
@[simp] theorem value?_pinRecord (number id : String) :
    (pinRecord number id : SExpr α).value? = some number := rfl

omit [Scalar α] in
@[simp] theorem child?_pinRecord (number id : String) :
    (pinRecord number id : SExpr α).child? "uuid" = some (uuidRecord id) := by
  simp [pinRecord]

theorem entry?_uuid_reread_wireRecord (w : Wire α) :
    SExpr.entry? "uuid" (wireRecord idOf w).reread = some (idOf w.key.text) := by
  simp [wireRecord, strokeRecord, numbers, SExpr.entry?]

theorem entry?_uuid_reread_noConnectRecord (f : NoConnectFlag α) :
    SExpr.entry? "uuid" (noConnectRecord idOf f).reread = some (idOf f.key) := by
  simp [noConnectRecord, placementRecord, numbers, SExpr.entry?]

theorem PowerSymbol.itemTexts_reread (project reference : String) (p : PowerSymbol α) :
    (p.record project (idOf Sheet.sheetKey) idOf reference).reread.itemTexts =
      p.texts project idOf reference := by
  simp [PowerSymbol.record, PowerSymbol.texts, SExpr.itemTexts, propertyRecord, placementRecord,
    numbers, yesNo, SExpr.flag, instancesRecord, SExpr.entry?]

theorem SymbolInstance.itemTexts_reread (project : String) (i : SymbolInstance α) :
    (i.record project (idOf Sheet.sheetKey) idOf).reread.itemTexts = i.texts project idOf := by
  have hreread : SExpr.reread ∘ (fun n => (pinRecord n (idOf (i.pinKey n)) : SExpr α)) =
      fun n => pinRecord n (idOf (i.pinKey n)) := funext fun n => reread_pinRecord ..
  have hhead : ∀ x ∈ i.pins.map fun n => (pinRecord n (idOf (i.pinKey n)) : SExpr α),
      x.head? = some "pin" := List.forall_mem_map.2 fun n _ => rfl
  simp [SymbolInstance.record, SymbolInstance.texts, SExpr.itemTexts, propertyRecord,
    placementRecord, numbers, yesNo, SExpr.flag, instancesRecord, SExpr.entry?, hreread,
    SExpr.children_record_append, SExpr.children_record_of_head hhead,
    SExpr.child?_record_append_of_head _ hhead]

theorem entries_reread_symbolPinRecord (power : Bool) (p : SymbolPin α) :
    SExpr.entry? "name" (symbolPinRecord power p).reread = some p.name ∧
      SExpr.entry? "number" (symbolPinRecord power p).reread = some p.number := by
  simp [symbolPinRecord, placementRecord, numbers, SExpr.entry?]

/-- The pins of a definition are read with their names and numbers. -/
theorem definitionTexts_reread_libraryRecord (id : String) (symbol : Option (Symbol α)) :
    (libraryRecord id symbol).reread.definitionTexts =
      (some id, (symbol.elim [] (·.pins)).map fun p => (some p.name, some p.number)) := by
  cases symbol with
  | none => simp [libraryRecord, SExpr.definitionTexts, yesNo, SExpr.flag]
  | some d =>
    have hhead : ∀ x ∈ d.pins.map (SExpr.reread ∘ symbolPinRecord d.power),
        x.head? = some "pin" := List.forall_mem_map.2 fun p _ => SExpr.head?_reread rfl
    cases hpower : d.power <;> cases hbody : d.body <;> rw [hpower] at hhead <;>
      simp [libraryRecord, SExpr.definitionTexts, yesNo, SExpr.flag, hpower, hbody, bodyRecord,
        SExpr.children_record_of_head hhead, entries_reread_symbolPinRecord]

end Reading

namespace Sheet

/-- A document says of each item of a sheet what the sheet says, in the order in which the
sheet lists them, and defines the symbols that are used. -/
structure ReadAs (s : Sheet α) (symbols : SymbolSource α) (idOf : String → String)
    (e : SExpr α) : Prop where
  /-- It is the document of the sheet up to its numbers. -/
  tree : e = (s.document symbols idOf).reread
  /-- It has the same quoted texts. -/
  strings : e.strings = (s.document symbols idOf).strings
  /-- It is a sheet. -/
  head : e.head? = some "kicad_sch"
  /-- The sheet has its identifier. -/
  id : e.entry? "uuid" = some (idOf sheetKey)
  /-- The paper is that of the sheet. -/
  paper : e.entry? "paper" = some s.paper
  /-- There is one record for each symbol in use. -/
  definitions : (e.child? "lib_symbols").map (fun d =>
      (d.children "symbol").map (·.definitionTexts)) =
    some (s.usedSymbols.map fun id =>
      (some id, ((symbols id).elim [] (·.pins)).map fun p => (some p.name, some p.number)))
  /-- There is one record for each wire. -/
  wires : (e.children "wire").map (fun x => x.entry? "uuid") =
    s.wires.map fun w => some (idOf w.key.text)
  /-- There is one record for each flag. -/
  noConnects : (e.children "no_connect").map (fun x => x.entry? "uuid") =
    s.noConnects.map fun f => some (idOf f.key)
  /-- There is one record for each symbol of a component and for each power symbol. -/
  items : (e.children "symbol").map (·.itemTexts) =
    s.symbols.map (SymbolInstance.texts s.name idOf) ++
      s.power.mapIdx fun i p => p.texts s.name idOf (powerReference i)

variable (s : Sheet α) (symbols : SymbolSource α) (idOf : String → String)

/-- The parts of a document are read one by one. -/
theorem children_reread_document (name : String) :
    (s.document symbols idOf).reread.children name =
      (s.parts symbols idOf).flatMap fun p => if p.1 = name then p.2.map SExpr.reread else [] := by
  have hreread : (s.document symbols idOf).reread = .record "kicad_sch"
      (((s.parts symbols idOf).map fun p => (p.1, p.2.map SExpr.reread)).flatMap Prod.snd) := by
    rw [document_eq_parts, SExpr.reread_record, List.flatMap_map, List.map_flatMap]
  have hhead : ∀ p ∈ (s.parts symbols idOf).map fun p => (p.1, p.2.map SExpr.reread),
      ∀ x ∈ p.2, x.head? = some p.1 := by
    simp only [List.forall_mem_map]
    exact fun p hp x hx => SExpr.head?_reread (head?_parts p hp x hx)
  rw [hreread, SExpr.children_record_parts hhead, List.flatMap_map]

/-- What is read says of each item of a sheet what the sheet says. -/
theorem readAs_reread (hplain : (s.document symbols idOf).Plain) :
    s.ReadAs symbols idOf (s.document symbols idOf).reread := by
  constructor
  case tree => rfl
  case strings => exact hplain.strings_reread
  case head => exact SExpr.head?_reread rfl
  case id => simp [document, SExpr.entry?, numbers]
  case paper => simp [document, SExpr.entry?, numbers]
  case definitions =>
    have hhead : ∀ x ∈ s.usedSymbols.map (SExpr.reread ∘ fun id => libraryRecord id (symbols id)),
        x.head? = some "symbol" := List.forall_mem_map.2 fun id _ => SExpr.head?_reread rfl
    have htexts : ∀ id, (libraryRecord id (symbols id)).reread.definitionTexts =
        (some id, ((symbols id).elim [] (·.pins)).map fun p => (some p.name, some p.number)) :=
      fun id => definitionTexts_reread_libraryRecord id _
    simp [document, numbers, SExpr.children_record_of_head hhead, htexts]
  case wires =>
    rw [children_reread_document]
    simp [parts, entry?_uuid_reread_wireRecord]
  case noConnects =>
    rw [children_reread_document]
    simp [parts, entry?_uuid_reread_noConnectRecord]
  case items =>
    have hitems : (s.document symbols idOf).reread.children "symbol" =
        (s.symbols.map (SymbolInstance.record s.name (idOf sheetKey) idOf)).map SExpr.reread ++
          (s.power.mapIdx fun i p => p.record s.name (idOf sheetKey) idOf
            (powerReference i)).map SExpr.reread := by
      rw [children_reread_document]
      simp [parts]
    simp only [hitems, List.map_append, List.mapIdx_eq_zipIdx_map, List.map_map,
      Function.comp_def, SymbolInstance.itemTexts_reread, PowerSymbol.itemTexts_reread]

/-- What is written is read, whatever the texts of the sheet are, as long as the identifiers are
in the form in which they are kept.  It says of each item what the sheet says, and it is written
alike once more if its numbers keep their texts. -/
theorem write_reads_back [SExpr.PlainNumbers α] (mint : String → String) (ids : IdMap)
    (hids : ∀ key ∈ s.keys, IsUuid (ids.idFor mint key)) :
    ∃ e, SExpr.parse (s.write symbols mint ids).1 = .ok e ∧
      s.ReadAs symbols (ids.idFor mint) e ∧
      ((∀ v ∈ (s.document symbols (ids.idFor mint)).numbers, SExpr.Rereads v) →
        e.documentText = (s.write symbols mint ids).1) := by
  have hplain : (s.document symbols (ids.idFor mint)).Plain := plain_document hids
  refine ⟨_, (SExpr.printed_reads_back.1 _ hplain).1, readAs_reread s symbols _ hplain,
    fun hnumbers => ?_⟩
  rw [write, SExpr.documentText, SExpr.lines_reread hplain hnumbers, SExpr.documentText]

end Sheet

end Records

/-- A sheet with quotes, parentheses, line breaks and digits in its texts. -/
def Sheet.awkward : Sheet ℚ where
  name := "say \"hi\"\n(twice)"
  paper := "A4 (landscape"
  symbols := [⟨0, "12) R\\", "my lib:\"R\"", "", "1e5", ⟨25.4, 12.7, 90⟩, ["1 (a)", "\n"]⟩]
  power := [⟨0, "power:GND", "(power_in", ⟨0, 1 / 3, 0⟩, "p\tq"⟩]
  wires := [⟨0, ⟨1.27, 2.54⟩, ⟨1.27, 7.62⟩⟩]
  noConnects := [⟨⟨1.27, 2.54⟩, "(uuid x)"⟩]
  routes := []

/-- The sheet with awkward texts comes back, with an identifier that is kept for the sheet and
new ones for its items. -/
theorem Sheet.awkward_reads_back :
    let ids : IdMap := ⟨[("sheet", "00000000-0000-4000-8000-000000000001")]⟩
    let mint : String → String := fun key => uuidOfWords 12 key.length.toUInt64
    let symbols : SymbolSource ℚ := fun id =>
      some ⟨id, [⟨"1", "a \"b\"", 0, 0, 0, 2.54⟩], none, true⟩
    (∀ key ∈ awkward.keys, IsUuid (ids.idFor mint key)) ∧
    (∀ v ∈ (awkward.document symbols (ids.idFor mint)).numbers, SExpr.Rereads v) ∧
    ∃ e, SExpr.parse (awkward.write symbols mint ids).1 = .ok e ∧
      awkward.ReadAs symbols (ids.idFor mint) e ∧
      e.documentText = (awkward.write symbols mint ids).1 := by
  intro ids mint symbols
  have hids : ∀ key ∈ awkward.keys, IsUuid (ids.idFor mint key) := by
    have hcanonical : ids.IsCanonical :=
      ⟨List.pairwise_singleton _ _, List.forall_mem_singleton.2 (by decide)⟩
    exact fun key _ => hcanonical.isUuid_idFor (fun _ => isUuid_uuidOfWords _ _) key
  have hnumbers : ∀ v ∈ (awkward.document symbols (ids.idFor mint)).numbers, SExpr.Rereads v := by
    unfold SExpr.Rereads
    decide +kernel
  obtain ⟨e, hparse, hread, hwritten⟩ := awkward.write_reads_back symbols mint ids hids
  exact ⟨hids, hnumbers, e, hparse, hread, hwritten hnumbers⟩

end Schematic
