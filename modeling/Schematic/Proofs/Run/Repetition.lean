import Schematic.Proofs.Document.Persistence
import Schematic.Proofs.Json.RoundTrip
import Schematic.Proofs.Run.Files
import Schematic.Run.CommandLine

/-!
# Runs that are repeated

A run reads its settings, its symbols and its circuit, and writes three files.  Where
these lead to different places, and to others than what is read, a second run finds
what the first one found, and the identifiers that the first one left: so it draws the
same, keeps every identifier and adds none, and the files stay as they are.

A configuration that is not there is not read.  Whether it is there may depend on a
directory that the first run makes, by a path that goes through this directory, so
that the second run reads what the first one did not see.

## Main definitions

* `RunOptions.inputs` — the files that are read.
* `RunSetup.Leaves` — what a run leaves.
* `RunOptions.Apart` — the files of a run are different ones.
* `RunOptions.Steady` — what a run leaves is what it would leave again.
* `RunM.passes` — a run that succeeds and passes a check.

## Main statements

* `RunSetup.synthesize_ok_iff` — the steps of a run.
* `RunSetup.load_ok_iff`, `RunSetup.load_of_leads` — what a run reads, and that it stays.
* `RunSetup.leaves_of_synthesize`, `RunSetup.Leaves.synthesize` — what a run leaves, and a second
  run with what was read for the first one.
* `RunOptions.steady_of_run` — a second run, and reports without output before and after.
-/

namespace Schematic

/-! ### Steps of a run -/

namespace RunM

variable {β γ : Type} {f after : Files}

theorem bind_ok_iff {x : RunM β} {k : β → RunM γ} {v : γ} :
    (x >>= k) f = .ok v after ↔ ∃ a between, x f = .ok a between ∧ k a between = .ok v after :=
  stateful_bind_ok_iff

theorem get_bind_apply (k : Files → RunM β) : (get >>= k) f = k f f := rfl

theorem ofExcept_ok_iff {x : Except RunError β} {v : β} :
    ofExcept x f = .ok v after ↔ x = .ok v ∧ f = after := by
  cases x with
  | error e => exact ⟨nofun, nofun⟩
  | ok w =>
    change EStateM.Result.ok w f = .ok v after ↔ _
    rw [EStateM.Result.ok.injEq, Except.ok.injEq]

theorem output_ok_iff {change : Files → Except IoFailure Files} {u : Unit} :
    output change f = .ok u after ↔ change f = .ok after := by
  rw [output, get_bind_apply]
  cases change f with
  | error failure => exact ⟨nofun, nofun⟩
  | ok files =>
    change EStateM.Result.ok () files = .ok u after ↔ _
    simp only [EStateM.Result.ok.injEq, true_and, Except.ok.injEq]

/-- Whether a run succeeds, with a report and files that pass a check. -/
def passes (check : Report → Files → Bool) : EStateM.Result RunError Files Report → Bool
  | .ok r f => check r f
  | .error .. => false

theorem exists_of_passes {check : Report → Files → Bool}
    {result : EStateM.Result RunError Files Report} (h : passes check result = true) :
    ∃ r f, result = .ok r f ∧ check r f = true := by
  cases result with
  | ok r f => exact ⟨r, f, rfl, h⟩
  | error e f => cases h

end RunM

namespace RunSetup

variable {s : RunSetup} {mint : String → String} {f after : Files} {r : Report}

/-- What is written with some identifiers. -/
def writing (s : RunSetup) (g : Generation Float) (mint : String → String) : Writing Float :=
  ⟨g.sheet, s.library.source, mint⟩

/-- The report on a drawing that is written. -/
def reportOn (s : RunSetup) (g : Generation Float) : Report :=
  { Report.ofGeneration s.options.circuit g with
    artifacts :=
      [schematicPath s.options.outDir g.netlist.name, netlistPath s.options.outDir g.netlist.name,
        s.options.idsPath] }

/-- A run makes the directory, reads the identifiers, writes the schematic and the netlist, and
writes the identifiers that are left into a directory that it makes for them. -/
theorem synthesize_ok_iff :
    s.synthesize mint f = .ok r after ↔
      ∃ g made ids drawn listed ready, s.generate = .ok g ∧
        f.createDirectories s.options.outDir = .ok made ∧
        loadIds made s.options.idsPath = .ok ids ∧
        made.write (schematicPath s.options.outDir g.netlist.name)
          ((s.writing g mint).text ids) = .ok drawn ∧
        drawn.write (netlistPath s.options.outDir g.netlist.name) g.netlist.documentText =
          .ok listed ∧
        listed.createDirectories (parentPath s.options.idsPath) = .ok ready ∧
        ready.write s.options.idsPath ((s.writing g mint).left ids).text = .ok after ∧
        r = s.reportOn g := by
  rw [synthesize]
  simp only [RunM.bind_ok_iff, RunM.ofExcept_ok_iff, RunM.createDirectories, RunM.write,
    RunM.output_ok_iff, RunM.get_bind_apply, except_mapError_eq_ok_iff]
  constructor
  · rintro ⟨g, _, ⟨hg, rfl⟩, _, made, hmade, ids, _, ⟨hids, rfl⟩, _, drawn, hdrawn, _, listed,
      hlisted, _, ready, hready, hlast⟩
    generalize hwritten : ready.write s.options.idsPath
      (g.sheet.write s.library.source mint ids).2.text = written at hlast
    cases written with
    | error failure => cases hlast
    | ok files =>
      cases hlast
      exact ⟨g, made, ids, drawn, listed, ready, hg, hmade, hids, hdrawn, hlisted, hready,
        hwritten, rfl⟩
  · rintro ⟨g, made, ids, drawn, listed, ready, hg, hmade, hids, hdrawn, hlisted, hready,
      hwritten, rfl⟩
    change ready.write s.options.idsPath (g.sheet.write s.library.source mint ids).2.text = _
      at hwritten
    refine ⟨g, _, ⟨hg, rfl⟩, (), made, hmade, ids, _, ⟨hids, rfl⟩, (), drawn, hdrawn, (), listed,
      hlisted, (), ready, hready, ?_⟩
    rw [hwritten]
    rfl

theorem leads_of_synthesize (h : s.synthesize mint f = .ok r after) :
    f.Leads (r.artifacts.map Files.nameOf).reverse after := by
  obtain ⟨g, made, ids, drawn, listed, ready, -, hmade, -, hdrawn, hlisted, hready, hafter, rfl⟩ :=
    synthesize_ok_iff.1 h
  exact ((((Files.leads_of_createDirectories hmade).trans (Files.leads_of_write hdrawn)).trans
    (Files.leads_of_write hlisted)).trans (Files.leads_of_createDirectories hready)).trans
    (Files.leads_of_write hafter)

end RunSetup

/-! ### What is read stays -/

section Reading

variable {β ε : Type} {f after : Files} {names : List String} {path : String}

theorem Files.load_eq_ok_iff {read? : String → Option β} {v : β} :
    (f.load path read? : Except (LoadError ε) β) = .ok v ↔
      ∃ text, f.read path = .ok text ∧ read? text = some v := by
  rw [load]
  cases f.read path with
  | error failure => simp
  | ok text => cases hread : read? text <;> simp [hread]

theorem Files.Leads.load (h : f.Leads names after) (hname : Files.nameOf path ∉ names)
    {read? : String → Option β} {v : β}
    (hf : (f.load path read? : Except (LoadError ε) β) = .ok v) :
    (after.load path read? : Except (LoadError ε) β) = .ok v := by
  obtain ⟨text, htext, hv⟩ := Files.load_eq_ok_iff.1 hf
  exact Files.load_eq_ok_iff.2 ⟨text, h.read hname htext, hv⟩

theorem Files.contains_of_read {text : String} (h : f.read path = .ok text) :
    f.contains path = true := by
  rw [contains, read_eq_ok_iff.1 h]
  rfl

theorem loadConfig_of_leads (h : f.Leads names after) (hname : Files.nameOf path ∉ names)
    (hthere : after.contains path = true → f.contains path = true) {config : Config Float}
    (hf : loadConfig f path = .ok config) : loadConfig after path = .ok config := by
  rw [loadConfig] at hf ⊢
  split at hf
  · obtain ⟨text, htext, -⟩ := Files.load_eq_ok_iff.1 hf
    rw [if_pos (Files.contains_of_read (h.read hname htext))]
    exact h.load hname hf
  · next hmissing => rw [if_neg (mt hthere hmissing), hf]

theorem loadSymbols_of_leads (h : f.Leads names after) (hname : Files.nameOf path ∉ names)
    {library : SymbolLibrary Float} (hf : loadSymbols f path = .ok library) :
    loadSymbols after path = .ok library := by
  obtain ⟨defs, hdefs, hlibrary⟩ := except_bind_eq_ok_iff.1 hf
  exact except_bind_eq_ok_iff.2 ⟨defs, h.load hname hdefs, hlibrary⟩

/-- Identifiers that are read are canonical, also when there are none. -/
theorem isCanonical_of_loadIds {ids : IdMap} (h : loadIds f path = .ok ids) : ids.IsCanonical := by
  rw [loadIds] at h
  split at h
  · obtain ⟨text, -, hids⟩ := Files.load_eq_ok_iff.1 h
    exact IdMap.isCanonical_of_read? hids
  · exact Except.ok.inj h ▸ IdMap.isCanonical_empty

/-- Identifiers that were written are read. -/
theorem loadIds_of_write {ids : IdMap} (hids : ids.IsCanonical)
    (h : f.write path ids.text = .ok after) : loadIds after path = .ok ids := by
  have htext := Files.read_of_write h
  rw [loadIds, if_pos (Files.contains_of_read htext)]
  exact Files.load_eq_ok_iff.2 ⟨_, htext, IdMap.read?_text hids⟩

end Reading

/-- The files that a run reads before it draws. -/
def RunOptions.inputs (o : RunOptions) : List String :=
  o.circuit :: (o.config.toList ++ o.symbols.toList)

namespace RunSetup

variable {s : RunSetup} {o : RunOptions} {mint : String → String} {f after : Files} {r : Report}

/-- A run reads the configuration and the symbols that it is told of, and the circuit. -/
theorem load_ok_iff :
    load f o = .ok s ↔ ∃ config library circuit,
      o.config.elim (default = config) (fun path => loadConfig f path = .ok config) ∧
      o.symbols.elim (SymbolLibrary.builtin = library) (fun path =>
        loadSymbols f path = .ok library) ∧
      (f.load o.circuit CircuitDef.read? : Except (LoadError CircuitError) _) = .ok circuit ∧
      { options := o, config := restrict o config, library, circuit } = s := by
  rw [load]
  cases o.config <;> cases o.symbols
  all_goals
    simp only [except_bind_eq_ok_iff, except_mapError_eq_ok_iff, Except.ok.injEq, exists_and_left,
      Option.elim_none, Option.elim_some]

theorem options_of_load (h : load f o = .ok s) : s.options = o := by
  obtain ⟨_, _, _, -, -, -, rfl⟩ := load_ok_iff.1 h
  rfl

/-- A configuration that is there has to be readable. -/
theorem load_of_malformed {path text : String} (hpath : o.config = some path)
    (htext : f.read path = .ok text)
    (hconfig : (Config.read? text : Option (Config Float)) = none) :
    load f o = .error (.config .malformed) := by
  have hload : loadConfig f path = .error .malformed := by
    rw [loadConfig, if_pos (Files.contains_of_read htext), Files.load, htext]
    simp only [hconfig]
  rw [load, hpath]
  simp only [hload]
  rfl

/-- What a run reads stays the same as long as it is not written and no configuration appears. -/
theorem load_of_leads {names : List String} (h : f.Leads names after)
    (hnames : ∀ path ∈ o.inputs, Files.nameOf path ∉ names)
    (hconfig : ∀ path ∈ o.config, after.contains path = true → f.contains path = true)
    (hload : load f o = .ok s) : load after o = .ok s := by
  obtain ⟨config, library, circuit, hsettings, hsymbols, hcircuit, rfl⟩ := load_ok_iff.1 hload
  obtain ⟨hcircuitName, hothers⟩ := List.forall_mem_cons.1 hnames
  obtain ⟨hconfigName, hsymbolsName⟩ := List.forall_mem_append.1 hothers
  refine load_ok_iff.2 ⟨config, library, circuit, ?_, ?_, h.load hcircuitName hcircuit, rfl⟩
  · cases hpath : o.config with
    | none => rwa [hpath] at hsettings
    | some path =>
      rw [hpath] at hsettings hconfig hconfigName
      exact loadConfig_of_leads h (hconfigName path (by simp)) (hconfig path rfl) hsettings
  · cases hpath : o.symbols with
    | none => rwa [hpath] at hsymbols
    | some path =>
      rw [hpath] at hsymbols hsymbolsName
      exact loadSymbols_of_leads h (hsymbolsName path (by simp)) hsymbols

/-! ### What a run leaves -/

/-- What a run leaves with some drawing and some identifiers: its files are there, so that writing
them again changes nothing. -/
structure Leaves (s : RunSetup) (before after : Files) (r : Report) (g : Generation Float)
    (left : IdMap) : Prop where
  /-- The drawing is that of the circuit. -/
  generated : s.generate = .ok g
  /-- It is reported on. -/
  report : r = s.reportOn g
  /-- The directory is there. -/
  directory : after.createDirectories s.options.outDir = .ok after
  /-- The identifiers are found. -/
  found : loadIds after s.options.idsPath = .ok left
  /-- The schematic is written with them, and no new one is needed. -/
  schematic : ∀ mint, (s.writing g mint).left left = left ∧
    after.write (schematicPath s.options.outDir g.netlist.name) ((s.writing g mint).text left) =
      .ok after
  /-- The netlist is written. -/
  netlist : after.write (netlistPath s.options.outDir g.netlist.name) g.netlist.documentText =
    .ok after
  /-- The directory of the identifiers is there. -/
  idsDirectory : after.createDirectories (parentPath s.options.idsPath) = .ok after
  /-- The identifiers are written. -/
  stored : after.write s.options.idsPath left.text = .ok after
  /-- Those that were there are among them. -/
  kept : ∀ ids, loadIds before s.options.idsPath = .ok ids → ids.Extends left

/-- Identifiers that are there before the directories are made are read, if any are. -/
theorem extends_of_loadIds {made : Files} (h : f.Leads [] made) {path : String}
    {ids found : IdMap} (hf : loadIds f path = .ok ids) (hfound : loadIds made path = .ok found) :
    ids.Extends found := by
  rw [loadIds] at hf
  split at hf
  · obtain ⟨text, htext, -⟩ := Files.load_eq_ok_iff.1 hf
    rw [loadIds, if_pos (Files.contains_of_read (h.read List.not_mem_nil htext)),
      h.load List.not_mem_nil hf] at hfound
    exact Except.ok.inj hfound ▸ .refl ids
  · exact Except.ok.inj hf ▸ fun key id hid => nomatch hid

theorem leaves_of_synthesize (hmint : ∀ key, IsUuid (mint key))
    (h : s.synthesize mint f = .ok r after) (hdistinct : (r.artifacts.map Files.nameOf).Nodup) :
    ∃ g left, s.Leaves f after r g left := by
  obtain ⟨g, made, ids, drawn, listed, ready, hg, hmade, hids, hdrawn, hlisted, hready, hafter,
    rfl⟩ := synthesize_ok_iff.1 h
  simp only [reportOn, List.map_cons, List.map_nil, List.nodup_cons, List.mem_cons,
    List.not_mem_nil, or_false, not_or] at hdistinct
  obtain ⟨⟨hschematicNetlist, hschematicIds⟩, hnetlistIds, -⟩ := hdistinct
  -- what becomes of the files after each of the steps
  have hfromReady := Files.leads_of_write hafter
  have hfromListed := (Files.leads_of_createDirectories hready).trans hfromReady
  have hfromDrawn := (Files.leads_of_write hlisted).trans hfromListed
  have hfromMade := (Files.leads_of_write hdrawn).trans hfromDrawn
  have hleft : ((s.writing g mint).left ids).IsCanonical :=
    (isCanonical_of_loadIds hids).cover hmint _
  have hself := IdMap.Extends.refl ((s.writing g mint).left ids)
  refine ⟨g, (s.writing g mint).left ids, hg, rfl, hfromMade.createDirectories hmade,
    loadIds_of_write hleft hafter, fun mint' => ⟨?_, ?_⟩, ?_, hfromReady.createDirectories hready,
    Files.write_again hafter, fun before hbefore => ?_⟩
  · exact (s.writing g mint).left_of_extends hself mint'
  · have htext := (s.writing g mint).text_of_extends hself mint'
    rw [show (s.writing g mint').text = ((s.writing g mint).withMint mint').text from rfl, htext]
    exact hfromDrawn.write (by simp [hschematicNetlist, hschematicIds]) (Files.write_again hdrawn)
  · exact hfromListed.write (by simp [hnetlistIds]) (Files.write_again hlisted)
  · exact (extends_of_loadIds (Files.leads_of_createDirectories hmade) hbefore hids).trans
      ((s.writing g mint).extends_left ids)

/-- A second run with what was read for the first one tells and leaves the same. -/
theorem Leaves.synthesize {g : Generation Float} {left : IdMap} (h : s.Leaves f after r g left)
    (mint : String → String) : s.synthesize mint after = .ok r after := by
  obtain ⟨hleft, hschematic⟩ := h.schematic mint
  refine synthesize_ok_iff.2 ⟨g, after, left, after, after, after, h.generated, h.directory,
    h.found, hschematic, h.netlist, h.idsDirectory, ?_, h.report⟩
  rw [hleft]
  exact h.stored

/-- A report without output is that of the run, but names no files. -/
theorem validate_of_synthesize (h : s.synthesize mint f = .ok r after) :
    s.validate = .ok { r with artifacts := [] } := by
  obtain ⟨g, _, _, _, _, _, hg, -, -, -, -, -, -, rfl⟩ := synthesize_ok_iff.1 h
  rw [validate, hg]
  rfl

end RunSetup

/-! ### Runs that read everything anew -/

variable {o : RunOptions} {mint : String → String} {f after : Files} {r : Report}

theorem Invocation.report_ok_iff {write : Bool} :
    Invocation.report write o mint f = .ok r after ↔ ∃ s, RunSetup.load f o = .ok s ∧
      (if write then s.synthesize mint else RunM.ofExcept s.validate) f = .ok r after := by
  rw [report, RunM.get_bind_apply, RunM.bind_ok_iff]
  simp only [RunM.ofExcept_ok_iff]
  constructor
  · rintro ⟨s, _, ⟨hs, rfl⟩, h⟩
    exact ⟨s, hs, h⟩
  · rintro ⟨s, hs, h⟩
    exact ⟨s, f, ⟨hs, rfl⟩, h⟩

theorem Invocation.report_of_load_error {write : Bool} {e : RunError}
    (h : RunSetup.load f o = .error e) : Invocation.report write o mint f = .error e f := by
  rw [report, RunM.get_bind_apply, h]
  rfl

namespace RunOptions

/-- The files that a run writes are different ones, and others than those that it reads for its
settings, its symbols and its circuit. -/
structure Apart (o : RunOptions) (artifacts : List String) : Prop where
  /-- No file is written twice. -/
  distinct : (artifacts.map Files.nameOf).Nodup
  /-- No file is written that is read. -/
  unread : ∀ path ∈ o.inputs, Files.nameOf path ∉ artifacts.map Files.nameOf

/-- A run leaves what it would leave again, and reporting alone changes nothing. -/
structure Steady (o : RunOptions) (before after : Files) (r : Report) : Prop where
  /-- Its files are the schematic and the netlist of what is drawn, and the identifiers in it,
  among them those that were there. -/
  drawn : ∀ s, RunSetup.load before o = .ok s → ∃ g left, s.generate = .ok g ∧
    r.artifacts = [schematicPath o.outDir g.netlist.name, netlistPath o.outDir g.netlist.name,
      o.idsPath] ∧
    (∀ mint, after.read (schematicPath o.outDir g.netlist.name) =
      .ok (g.sheet.document s.library.source (left.idFor mint)).documentText) ∧
    after.read (netlistPath o.outDir g.netlist.name) = .ok g.netlist.documentText ∧
    after.read o.idsPath = .ok left.text ∧
    ∀ ids, loadIds before o.idsPath = .ok ids → ids.Extends left
  /-- With what was read for the first run, a second run tells and leaves the same, and a report
  without output, which needs no files, tells the same. -/
  settled : ∀ s, RunSetup.load before o = .ok s →
    (∀ mint, s.synthesize mint after = .ok r after) ∧ s.validate = .ok { r with artifacts := [] }
  /-- Before the run a report without output tells the same, and leaves everything. -/
  announced : ∀ mint,
    Invocation.report false o mint before = .ok { r with artifacts := [] } before
  /-- Where everything is read anew, and no configuration has appeared, a second run and a report
  without output tell the same, and leave everything. -/
  anew : (∀ path ∈ o.config, after.contains path = true → before.contains path = true) →
    ∀ mint, Invocation.report true o mint after = .ok r after ∧
      Invocation.report false o mint after = .ok { r with artifacts := [] } after

/-- A run whose files are apart is steady. -/
theorem steady_of_run (hmint : ∀ key, IsUuid (mint key))
    (hrun : Invocation.report true o mint f = .ok r after) (hapart : o.Apart r.artifacts) :
    o.Steady f after r := by
  obtain ⟨s, hload, hs⟩ := Invocation.report_ok_iff.1 hrun
  obtain ⟨g, left, hleaves⟩ := RunSetup.leaves_of_synthesize hmint hs hapart.distinct
  have hvalidate := RunSetup.validate_of_synthesize hs
  have hreport : ∀ mint files, RunSetup.load files o = .ok s →
      Invocation.report false o mint files = .ok { r with artifacts := [] } files :=
    fun mint files hfiles => Invocation.report_ok_iff.2
      ⟨s, hfiles, RunM.ofExcept_ok_iff.2 ⟨hvalidate, rfl⟩⟩
  have hsame : ∀ s', RunSetup.load f o = .ok s' → s = s' := fun s' hs' =>
    Except.ok.inj (hload.symm.trans hs')
  have hoptions := RunSetup.options_of_load hload
  refine ⟨fun s' hs' => ?_, fun s' hs' => ?_, fun mint' => hreport mint' f hload, ?_⟩
  · obtain rfl := hsame s' hs'
    rw [← hoptions]
    exact ⟨g, left, hleaves.generated, by rw [hleaves.report]; rfl,
      fun mint' => Files.read_of_write (hleaves.schematic mint').2,
      Files.read_of_write hleaves.netlist, Files.read_of_write hleaves.stored, hleaves.kept⟩
  · obtain rfl := hsame s' hs'
    exact ⟨hleaves.synthesize, hvalidate⟩
  · intro hconfig mint'
    have hanew : RunSetup.load after o = .ok s :=
      RunSetup.load_of_leads (RunSetup.leads_of_synthesize hs)
        (fun path hpath hname => hapart.unread path hpath (List.mem_reverse.1 hname)) hconfig hload
    exact ⟨Invocation.report_ok_iff.2 ⟨s, hanew, hleaves.synthesize mint'⟩,
      hreport mint' after hanew⟩

/-! ### A horn

Two runs on a small circuit: one with a configuration and with identifiers from before, and one
with a configuration that the first run cannot see. -/

/-- The circuit of a horn. -/
def hornText : String := "name: horn\ncomponents:\n- \x7bref: LS1, symbol: Device:R\x7d\n"

/-- A run that draws the horn into a directory `out`. -/
def hornOptions (config : String) : RunOptions :=
  { circuit := "horn.yaml", outDir := "out", config := some config }

/-- New identifiers by the letters of their keys. -/
def hornMint (key : String) : String :=
  uuidOfWords (UInt64.ofNat (key.toList.foldl (fun n c => 31 * n + c.toNat) 0)) 0

/-- The horn with a configuration, and with an identifier that was kept. -/
def hornFiles : Files :=
  ⟨Table.ofList
    [("horn.yaml", .file hornText), ("netweave.yaml", .file "assembly:\n  paper: A3\n"),
      ("out", .directory),
      ("out/ids.json", .file "\x7b\"LS1\": \"00112233-4455-6677-8899-aabbccddeeff\"\x7d")]⟩

/-- The horn with a broken configuration. -/
def brokenHornFiles : Files :=
  ⟨Table.ofList [("horn.yaml", .file hornText), ("netweave.yaml", .file "[")]⟩

/-- The files of the horn. -/
def hornArtifacts : List String := ["out/horn.kicad_sch", "out/horn.net", "out/ids.json"]

theorem horn_steady : ∃ r after,
    Invocation.report true (hornOptions "netweave.yaml") hornMint hornFiles = .ok r after ∧
      (hornOptions "netweave.yaml").Apart r.artifacts ∧
      (hornOptions "netweave.yaml").Steady hornFiles after r ∧
      Invocation.report true (hornOptions "netweave.yaml") hornMint after = .ok r after := by
  have hpasses : RunM.passes (fun r _ => r.artifacts = hornArtifacts)
      (Invocation.report true (hornOptions "netweave.yaml") hornMint hornFiles) = true := by
    decide +kernel
  obtain ⟨r, after, hrun, hartifacts⟩ := RunM.exists_of_passes hpasses
  have hapart : (hornOptions "netweave.yaml").Apart r.artifacts := by
    rw [of_decide_eq_true hartifacts]
    exact ⟨by decide +kernel, by decide +kernel⟩
  have hsteady := steady_of_run (fun key => isUuid_uuidOfWords _ _) hrun hapart
  have hthere : hornFiles.contains "netweave.yaml" = true := by decide +kernel
  refine ⟨r, after, hrun, hapart, hsteady, (hsteady.anew ?_ hornMint).1⟩
  exact fun path hpath _ => Option.some.inj hpath ▸ hthere

/-- The first run sees no configuration, as its path goes through a directory that is not there,
and the second run fails on the one that it finds. -/
theorem broken_horn_fails : (∀ key, IsUuid (hornMint key)) ∧ ∃ r after,
    Invocation.report true (hornOptions "out/../netweave.yaml") hornMint brokenHornFiles =
        .ok r after ∧
      (hornOptions "out/../netweave.yaml").Apart r.artifacts ∧
      Invocation.report true (hornOptions "out/../netweave.yaml") hornMint after =
        .error (.config .malformed) after := by
  have hpasses : RunM.passes
      (fun r after => r.artifacts = hornArtifacts ∧
        after.find? "out/../netweave.yaml" = some (.file "["))
      (Invocation.report true (hornOptions "out/../netweave.yaml") hornMint brokenHornFiles) =
        true := by
    decide +kernel
  obtain ⟨r, after, hrun, hafter⟩ := RunM.exists_of_passes hpasses
  obtain ⟨hartifacts, hconfig⟩ := of_decide_eq_true hafter
  have hbroken : (Config.read? "[" : Option (Config Float)).isNone = true := by decide +kernel
  refine ⟨fun key => isUuid_uuidOfWords _ _, r, after, hrun, ?_, ?_⟩
  · rw [hartifacts]
    exact ⟨by decide +kernel, by decide +kernel⟩
  · exact Invocation.report_of_load_error (RunSetup.load_of_malformed rfl
      (Files.read_eq_ok_iff.2 hconfig) (Option.isNone_iff_eq_none.1 hbroken))

end RunOptions

end Schematic
