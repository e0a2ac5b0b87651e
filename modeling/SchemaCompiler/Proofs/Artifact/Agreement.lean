import SchemaCompiler.Artifact.Emission
import SchemaCompiler.Proofs.Artifact.Columns
import Mathlib

/-! # The artifacts of a document agree

Scripts and descriptor are made from one compiled schema. A document has a descriptor whenever it has
scripts, unless a table takes a key that every object has already, and then the two describe the same
databases, tables and columns. -/

namespace SchemaCompiler

open Descriptor

/-! ## What agreement is -/

/-- A created table and a record have one name and agree column by column. -/
structure TablesAgree (created : Ddl.CreateTable) (record : TableRecord) : Prop where
  name : created.name = record.name
  columns : List.Forall₂ ColumnsAgree created.columns record.columns

/-- A script creates the database of a record and, within it, the tables of the record. -/
structure DatabasesAgree (entry : DatabaseKind × Ddl.Script) (record : DatabaseRecord) : Prop where
  namespaceName : entry.1.namespaceName = record.namespaceName
  statements : ∃ charset collation, entry.2.statements =
    .createDatabase record.name charset collation :: .use record.name ::
      entry.2.tables.map Ddl.Statement.createTable
  tables : List.Forall₂ TablesAgree entry.2.tables record.tables

/-! ## Schemas -/

theorem Ddl.tables_script (options : Ddl.Options) (d : Schema.Database) :
    (script options d).tables = d.tables.map createTable := by
  have htables : ∀ ts : List Schema.Table,
      (ts.map fun t => Statement.createTable (createTable t)).filterMap Statement.table? =
        ts.map createTable := by
    intro ts
    rw [List.filterMap_map]
    exact congrFun List.filterMap_eq_map ts
  simp only [Script.tables, script, List.filterMap_cons, Statement.table?]
  exact htables d.tables

theorem databasesAgree {d : Schema.Database} {record : DatabaseRecord} (options : Ddl.Options)
    (h : ∀ t ∈ d.tables, ∀ c ∈ t.columns, c.InOrder) (hrecord : databaseRecord d = .ok record) :
    DatabasesAgree (d.kind, Ddl.script options d) record := by
  obtain ⟨-, rfl⟩ := databaseRecord_eq_ok.mp hrecord
  refine ⟨rfl, ⟨options.charset, options.collation, ?_⟩, ?_⟩
  · rw [Ddl.tables_script, List.map_map]
    rfl
  · rw [Ddl.tables_script, List.forall₂_map_left_iff, List.forall₂_map_right_iff, List.forall₂_same]
    intro t ht
    refine ⟨rfl, ?_⟩
    simp only [Ddl.createTable, tableRecord]
    rw [List.forall₂_map_left_iff, List.forall₂_map_right_iff, List.forall₂_same]
    exact fun c hc => (h t ht c hc).columnsAgree

/-- A schema has no descriptor exactly when one of its tables has a reserved name. -/
theorem Descriptor.ofSchema_eq_error_iff {s : Schema} : (∃ e, ofSchema s = .error e) ↔
    ∃ d ∈ s.databases, ∃ t ∈ d.tables, t.name ∈ reservedTableNames := by
  have hok : (∃ descriptor, ofSchema s = .ok descriptor) ↔
      ∀ d ∈ s.databases, ∀ t ∈ d.tables, t.name ∉ reservedTableNames := by
    have hrecords : (∃ descriptor, ofSchema s = .ok descriptor) ↔
        ∃ records, List.Forall₂ (fun d r => databaseRecord d = .ok r) s.databases records := by
      simp only [ofSchema_eq_ok]
      exact ⟨fun ⟨descriptor, h⟩ => ⟨_, h⟩, fun ⟨records, h⟩ => ⟨⟨records⟩, h⟩⟩
    simp only [hrecords, exists_forall₂_iff, databaseRecord_eq_ok, exists_and_left, exists_eq', and_true]
  have herror : (∃ e, ofSchema s = .error e) ↔ ¬∃ descriptor, ofSchema s = .ok descriptor := by
    cases ofSchema s <;> simp
  rw [herror, hok]
  push Not
  rfl

/-- The scripts and the descriptor of one schema agree. -/
theorem forall₂_databasesAgree {d : Document} {s : Schema} {descriptor : Descriptor} (hs : d.Becomes s)
    (h : ofSchema s = .ok descriptor) (options : Ddl.Options) :
    List.Forall₂ DatabasesAgree (Ddl.scripts options s) descriptor.databases := by
  rw [Ddl.scripts, List.forall₂_map_left_iff]
  have horder : ∀ database ∈ s.databases, ∀ t ∈ database.tables, ∀ c ∈ t.columns, c.InOrder :=
    fun _ hdatabase _ ht _ hc => hs.inOrder hdatabase ht hc
  have hrecords := (List.forall₂_and_left _ _).mpr ⟨horder, ofSchema_eq_ok.mp h⟩
  exact hrecords.imp fun _ _ hrecord => databasesAgree options hrecord.1 hrecord.2

namespace Artifact

/-! ## Artifacts -/

section Texts

variable [Json.RealReader] {sql : Ddl.Options} {options : Descriptor.Options} {schema text : String}

theorem scripts_eq_error {e : Failure} : scripts sql schema text = .error e ↔
    Schema.ofText text = .error e := by
  unfold scripts
  cases Schema.ofText text <;> simp [bind, Except.bind, pure, Except.pure]

theorem scripts_eq_ok {artifacts : List Artifact} : scripts sql schema text = .ok artifacts ↔
    ∃ s, Schema.ofText text = .ok s ∧ (Ddl.scripts sql s).map (fun entry =>
      ⟨scriptName schema entry.1, entry.2.text⟩) = artifacts := by
  simp only [scripts, bind_eq_ok, pure_eq_ok]

theorem modules_of_error {e : Failure} (h : Schema.ofText text = .error e) :
    modules options schema text = .error e := by
  rw [modules, h]
  rfl

theorem modules_of_ok {s : Schema} (h : Schema.ofText text = .ok s) :
    modules options schema text = (ofSchema s).map fun descriptor =>
      [⟨moduleName schema options.extension, descriptor.text⟩] := by
  rw [modules, h]
  cases hs : ofSchema s <;> simp [bind, Except.bind, pure, Except.pure, Except.map, hs]

/-- A text without scripts has no descriptor module, for the same reason. A text with scripts has a module
unless a table takes a reserved name, and then both describe the same databases. -/
theorem scripts_modules_agree (sql : Ddl.Options) (options : Descriptor.Options)
    (schema text : String) :
    (∀ e, scripts sql schema text = .error e → modules options schema text = .error e) ∧
    ∀ artifacts, scripts sql schema text = .ok artifacts → ∃ s, Schema.ofText text = .ok s ∧
      artifacts = (Ddl.scripts sql s).map (fun entry => ⟨scriptName schema entry.1, entry.2.text⟩) ∧
      ((∃ e, modules options schema text = .error e) ↔
        ∃ d ∈ s.databases, ∃ t ∈ d.tables, t.name = "_name" ∨ t.name = "__proto__") ∧
      ∀ ms, modules options schema text = .ok ms → ∃ descriptor, ofSchema s = .ok descriptor ∧
        ms = [⟨moduleName schema options.extension, descriptor.text⟩] ∧
        List.Forall₂ DatabasesAgree (Ddl.scripts sql s) descriptor.databases := by
  refine ⟨fun e h => modules_of_error (scripts_eq_error.mp h), ?_⟩
  intro artifacts hartifacts
  obtain ⟨s, hs, rfl⟩ := scripts_eq_ok.mp hartifacts
  refine ⟨s, hs, rfl, ?_, ?_⟩
  · have hreserved : ∀ name, name ∈ reservedTableNames ↔ name = "_name" ∨ name = "__proto__" := by
      intro name
      simp [reservedTableNames]
    rw [modules_of_ok hs]
    simp only [← hreserved, ← ofSchema_eq_error_iff]
    cases ofSchema s <;> simp [Except.map]
  · intro ms hms
    rw [modules_of_ok hs] at hms
    cases hdescriptor : ofSchema s with
    | error e => simp [hdescriptor, Except.map] at hms
    | ok descriptor =>
        simp only [hdescriptor, Except.map, Except.ok.injEq] at hms
        obtain ⟨d, -, hd⟩ := bind_eq_ok.mp hs
        exact ⟨descriptor, rfl, hms.symm,
          forall₂_databasesAgree (Document.compile_eq_ok.mp hd) hdescriptor sql⟩

end Texts

/-- The text of a database with one table, whose byte strings have one length. -/
def digests : String :=
  "[\x7b\"name\": \"app\", \"type\": \"fixed\", \"tables\": [\x7b\"name\": \"files\", \"columns\": [" ++
  "\x7b\"name\": \"digest\", \"type\": \"binary\", \"minSize\": 2, \"maxSize\": 2, " ++
  "\"defaultValue\": \"0xbeef\"\x7d]\x7d]\x7d]"

/-- What the text of digests compiles to. -/
def digestsSchema : Schema :=
  ⟨[⟨"app", .core, [⟨"files", [⟨"digest", false, some (.hex "BEEF"), .binary 2 2, none⟩], []⟩]⟩]⟩

theorem scripts_modules_agree_digests :
    (∃ e, scripts {} "shop" "[]" = .error e ∧ modules {} "shop" "[]" = .error e) ∧
    ∃ artifacts ms descriptor, scripts {} "shop" digests = .ok artifacts ∧
      modules {} "shop" digests = .ok ms ∧ ofSchema digestsSchema = .ok descriptor ∧
      List.Forall₂ DatabasesAgree (Ddl.scripts {} digestsSchema) descriptor.databases := by
  have hcompiles : (Schema.ofText digests).toOption = some digestsSchema := by decide +kernel
  have hs : Schema.ofText digests = .ok digestsSchema := by
    cases h : Schema.ofText digests with
    | error e =>
        rw [h] at hcompiles
        cases hcompiles
    | ok s =>
        rw [h] at hcompiles
        cases hcompiles
        rfl
  have hempty : scripts {} "shop" "[]" = .error { subject := .databaseCount 0 } := by cbv
  obtain ⟨artifacts, hscripts⟩ : ∃ artifacts, scripts {} "shop" digests = .ok artifacts :=
    ⟨_, scripts_eq_ok.mpr ⟨digestsSchema, hs, rfl⟩⟩
  obtain ⟨ms, hmodules⟩ : ∃ ms, modules {} "shop" digests = .ok ms := by
    rw [modules_of_ok hs]
    exact ⟨_, rfl⟩
  refine ⟨⟨_, hempty, (scripts_modules_agree {} {} "shop" "[]").1 _ hempty⟩, ?_⟩
  obtain ⟨s, hs', -, -, hagree⟩ := (scripts_modules_agree {} {} "shop" digests).2 artifacts hscripts
  cases hs.symm.trans hs'
  obtain ⟨descriptor, hdescriptor, -, hdatabases⟩ := hagree ms hmodules
  exact ⟨artifacts, ms, descriptor, hscripts, hmodules, hdescriptor, hdatabases⟩

end Artifact

end SchemaCompiler
