import SchemaCompiler.Proofs.ForeignKey.Resolution
import SchemaCompiler.Schema.Compilation

/-! # What a compilation that succeeds has checked

One inversion for each level of a document: what it checks itself, and what it leaves to its parts. -/

namespace SchemaCompiler

/-! ## Names and words -/

theorem checkName_eq_ok {kind : Identifier} {name : String} {u : Unit} :
    checkName kind name = .ok u ↔ kind.accepts name := by
  unfold checkName
  split <;> simp_all

namespace ColumnKind

theorem ofToken?_eq_some {token : String} {kind : ColumnKind} :
    ofToken? token = some kind ↔ kind.token = token := by
  constructor
  · intro h
    simpa using List.find?_some h
  · rintro rfl
    cases kind <;> decide

end ColumnKind

namespace DatabaseKind

theorem ofToken?_eq_some {token : String} {kind : DatabaseKind} :
    ofToken? token = some kind ↔ kind.token = token := by
  constructor
  · intro h
    simpa using List.find?_some h
  · rintro rfl
    cases kind <;> decide

end DatabaseKind

namespace IndexKind

theorem ofToken?_eq_some {token : String} {kind : IndexKind} :
    ofToken? token = some kind ↔ kind.token = token := by
  constructor
  · intro h
    simpa using List.find?_some h
  · rintro rfl
    cases kind <;> decide

end IndexKind

/-! ## Indexes -/

namespace IndexDeclaration

variable {i : IndexDeclaration} {columns : List Column} {index : Schema.Index}

theorem knownKind_eq_ok {kind : IndexKind} : i.knownKind = .ok kind ↔ kind.token = i.kind := by
  rw [← IndexKind.ofToken?_eq_some, knownKind]
  split <;> simp_all

theorem compile_eq_ok : i.compile columns = .ok index ↔ index.kind.token = i.kind ∧
    index.columns = i.columns ∧ i.columns ≠ [] ∧ ∀ name ∈ i.columns, ∃ c ∈ columns, c.name = name := by
  simp only [compile, bind_eq_ok, knownKind_eq_ok, guard_eq_ok, List.isEmpty_iff]
  cases hfind : i.columns.find? fun name => !columns.any (·.name = name) with
  | some name =>
      have hmem := List.mem_of_find?_eq_some hfind
      have hunknown : ∀ c ∈ columns, c.name ≠ name := by simpa using List.find?_some hfind
      simp only [throw_eq_ok, and_false, exists_false, false_iff]
      rintro ⟨-, -, -, hknown⟩
      obtain ⟨c, hc, hname⟩ := hknown name hmem
      exact hunknown c hc hname
  | none =>
      have hknown : ∀ name ∈ i.columns, ∃ c ∈ columns, c.name = name := by simpa using hfind
      simp only [pure_eq_ok]
      constructor
      · rintro ⟨kind, hkind, hne, rfl⟩
        exact ⟨hkind, rfl, hne, hknown⟩
      · rintro ⟨hkind, hcolumns, hne, -⟩
        exact ⟨index.kind, hkind, hne, by rw [← hcolumns]⟩

end IndexDeclaration

/-! ## Columns -/

namespace ColumnDeclaration

variable {databases : List DatabaseDeclaration} {home : DatabaseDeclaration} {c : ColumnDeclaration}
  {column : Column}

theorem isReference_iff : c.isReference ↔ c.kind = "FK" := by
  simp only [isReference, decide_eq_true_eq, ColumnKind.ofToken?_eq_some, ColumnKind.token]
  exact eq_comm

theorem isReference_eq_false_iff : c.isReference = false ↔ c.kind ≠ "FK" := by
  rw [← Bool.not_eq_true, isReference_iff]

/-- What a column becomes, references being followed. -/
def Becomes (databases : List DatabaseDeclaration) (home : DatabaseDeclaration)
    (c : ColumnDeclaration) (column : Column) : Prop :=
  c.isReference = false ∧ c.validate = .ok column ∨
    c.isReference ∧ ForeignKey.resolve databases home c = .ok column

theorem compile_eq_ok : c.compile databases home = .ok column ↔
    Identifier.column.accepts c.name ∧ c.Becomes databases home column := by
  simp only [compile, bind_eq_ok, Failure.unplaced_eq_ok, checkName_eq_ok, knownKind_eq_ok,
    Becomes, isReference, validate_eq_ok]
  cases hkind : ColumnKind.ofToken? c.kind with
  | none => simp
  | some kind => cases kind <;> simp

theorem Becomes.keeps (h : c.Becomes databases home column) : c.Keeps column := by
  obtain ⟨-, hvalidate⟩ | ⟨-, hresolve⟩ := h
  · obtain ⟨_, -, houtline⟩ := validate_outline hvalidate
    exact houtline.toKeeps
  · obtain ⟨_, _, _, _, -, -, -, hrefer⟩ := ForeignKey.settles_of_resolveFrom hresolve
    exact refer_keeps hrefer

end ColumnDeclaration

/-! ## Tables -/

namespace TableDeclaration

variable {databases : List DatabaseDeclaration} {home : DatabaseDeclaration} {t : TableDeclaration}

theorem compileColumns_eq_ok {columns : List Column} :
    t.compileColumns databases home = .ok columns ↔ (t.columns.map (·.name)).Nodup ∧
      List.Forall₂ (fun c column => Identifier.column.accepts c.name ∧
        c.Becomes databases home column) t.columns columns := by
  simp only [compileColumns, compileDistinct_eq_ok, Failure.within_eq_ok,
    ColumnDeclaration.compile_eq_ok, List.not_mem_nil, not_false_eq_true, implies_true, true_and]

/-- What a table becomes, column by column and index by index. -/
structure Becomes (databases : List DatabaseDeclaration) (home : DatabaseDeclaration)
    (t : TableDeclaration) (table : Schema.Table) : Prop where
  accepted : Identifier.table.accepts t.name
  supported : t.kind = fixedKind
  distinct : (t.columns.map (·.name)).Nodup
  name : table.name = t.name
  columns : List.Forall₂ (fun c column => Identifier.column.accepts c.name ∧
    c.Becomes databases home column) t.columns table.columns
  indexes : List.Forall₂ (fun i index => i.compile table.columns = .ok index) t.indexes table.indexes
  primary : table.indexes.countP (·.kind = .primary) ≤ 1

theorem Becomes.columnNames {table : Schema.Table} (h : t.Becomes databases home table) :
    t.columns.map (·.name) = table.columns.map (·.name) :=
  map_eq_map_of_forall₂ h.columns fun _ _ hcolumn => hcolumn.2.keeps.name.symm

theorem compile_eq_ok {table : Schema.Table} :
    t.compile databases home = .ok table ↔ t.Becomes databases home table := by
  simp only [compile, bind_eq_ok, guard_eq_ok, pure_eq_ok, Failure.unplaced_eq_ok, mapM_eq_ok,
    checkName_eq_ok, compileColumns_eq_ok, repeatsPrimary, decide_eq_true_eq, Nat.not_lt, ne_eq,
    not_not]
  constructor
  · rintro ⟨_, haccepts, hkind, columns, ⟨hdistinct, hcolumns⟩, indexes, hindexes, hprimary, rfl⟩
    exact ⟨haccepts, hkind, hdistinct, rfl, hcolumns, hindexes, hprimary⟩
  · intro h
    refine ⟨(), h.accepted, h.supported, table.columns, ⟨h.distinct, h.columns⟩, table.indexes,
      h.indexes, h.primary, ?_⟩
    rw [← h.name]

end TableDeclaration

/-! ## Databases -/

namespace DatabaseDeclaration

variable {databases before rest : List DatabaseDeclaration} {d : DatabaseDeclaration}

theorem knownKind_eq_ok {kind : DatabaseKind} : d.knownKind = .ok kind ↔ kind.token = d.kind := by
  rw [← DatabaseKind.ofToken?_eq_some, knownKind]
  split <;> simp_all

theorem check_eq_ok {u : Unit} : d.check before = .ok u ↔ Identifier.database.accepts d.name ∧
    (∃ kind : DatabaseKind, kind.token = d.kind) ∧ (∀ b ∈ before, b.name ≠ d.name) ∧
      ∀ b ∈ before, b.kind ≠ d.kind := by
  simp only [check, bind_eq_ok, guard_eq_ok, lastGuard_eq_ok, checkName_eq_ok, knownKind_eq_ok]
  simp

/-- All databases pass when each passes on its own and none repeats one before it. -/
theorem checkAll_eq_ok {u : Unit} : checkAll before rest = .ok u ↔
    (∀ d ∈ rest, Identifier.database.accepts d.name ∧ ∃ kind : DatabaseKind, kind.token = d.kind) ∧
      ((rest.map (·.name)).Nodup ∧ ∀ b ∈ before, ∀ d ∈ rest, b.name ≠ d.name) ∧
      (rest.map (·.kind)).Nodup ∧ ∀ b ∈ before, ∀ d ∈ rest, b.kind ≠ d.kind := by
  induction rest generalizing before with
  | nil => simp [checkAll]
  | cons d rest ih =>
      simp only [checkAll, bind_eq_ok, Failure.within_eq_ok, Failure.unplaced_eq_ok, check_eq_ok, ih]
      simp only [List.mem_append, List.map_cons, List.nodup_cons, List.mem_map, List.mem_cons]
      grind

/-- What a database becomes, table by table. -/
structure Becomes (databases : List DatabaseDeclaration) (d : DatabaseDeclaration)
    (database : Schema.Database) : Prop where
  kind : database.kind.token = d.kind
  name : database.name = d.name
  distinct : (d.tables.map (·.name)).Nodup
  tables : List.Forall₂ (fun t table => t.Becomes databases d table) d.tables database.tables

theorem Becomes.tableNames {database : Schema.Database} (h : d.Becomes databases database) :
    d.tables.map (·.name) = database.tables.map (·.name) :=
  map_eq_map_of_forall₂ h.tables fun _ _ htable => htable.name.symm

theorem compile_eq_ok {database : Schema.Database} :
    d.compile databases = .ok database ↔ d.Becomes databases database := by
  simp only [compile, bind_eq_ok, pure_eq_ok, Failure.unplaced_eq_ok, knownKind_eq_ok,
    compileDistinct_eq_ok, Failure.within_eq_ok, TableDeclaration.compile_eq_ok, List.not_mem_nil,
    not_false_eq_true, implies_true, true_and]
  constructor
  · rintro ⟨kind, hkind, tables, ⟨hdistinct, htables⟩, rfl⟩
    exact ⟨hkind, rfl, hdistinct, htables⟩
  · intro h
    refine ⟨database.kind, h.kind, database.tables, ⟨h.distinct, h.tables⟩, ?_⟩
    rw [← h.name]

end DatabaseDeclaration

/-! ## Documents -/

namespace Document

/-- What a document becomes, database by database. -/
structure Becomes (d : Document) (s : Schema) : Prop where
  count : d.databases.length = 1 ∨ d.databases.length = 2
  accepted : ∀ database ∈ d.databases, Identifier.database.accepts database.name
  names : (d.databases.map (·.name)).Nodup
  kinds : (d.databases.map (·.kind)).Nodup
  databases : List.Forall₂ (fun database compiled => database.Becomes d.databases compiled)
    d.databases s.databases

theorem Becomes.databaseNames {d : Document} {s : Schema} (h : d.Becomes s) :
    d.databases.map (·.name) = s.databases.map (·.name) :=
  map_eq_map_of_forall₂ h.databases fun _ _ hdatabase => hdatabase.name.symm

theorem Becomes.nodup_kinds {d : Document} {s : Schema} (h : d.Becomes s) :
    (s.databases.map (·.kind)).Nodup := by
  have htokens : d.databases.map (·.kind) = s.databases.map (·.kind.token) :=
    map_eq_map_of_forall₂ h.databases fun _ _ hdatabase => hdatabase.kind.symm
  apply List.Nodup.of_map DatabaseKind.token
  rw [List.map_map]
  exact htokens ▸ h.kinds

theorem admitsCount_iff {count : Nat} : admitsCount count ↔ count = 1 ∨ count = 2 := by
  simp only [admitsCount, Bool.and_eq_true, decide_eq_true_eq]
  omega

theorem compile_eq_ok {d : Document} {s : Schema} : d.compile = .ok s ↔ d.Becomes s := by
  simp only [compile, bind_eq_ok, guard_eq_ok, pure_eq_ok, mapM_eq_ok,
    DatabaseDeclaration.checkAll_eq_ok, DatabaseDeclaration.compile_eq_ok, Bool.not_eq_true',
    Bool.not_eq_false, admitsCount_iff]
  constructor
  · rintro ⟨hcount, _, ⟨hchecked, ⟨hnames, -⟩, hkinds, -⟩, databases, hdatabases, rfl⟩
    exact ⟨hcount, fun database hd => (hchecked database hd).1, hnames, hkinds, hdatabases⟩
  · intro h
    refine ⟨h.count, (), ⟨?_, ⟨h.names, by simp⟩, h.kinds, by simp⟩, s.databases, h.databases, rfl⟩
    intro database hd
    obtain ⟨compiled, -, hbecomes⟩ := exists_of_mem_left h.databases hd
    exact ⟨h.accepted database hd, compiled.kind, hbecomes.kind⟩

end Document

end SchemaCompiler
