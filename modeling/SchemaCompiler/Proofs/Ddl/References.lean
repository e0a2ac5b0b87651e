import SchemaCompiler.Ddl.Catalog
import SchemaCompiler.Ddl.Emission
import SchemaCompiler.Proofs.Schema.References
import Mathlib

/-! # Foreign keys of emitted scripts

A clause is rendered from a compiled reference alone, with no look at the table that it names. That this
table is created by a script of the schema, and that both columns are defined alike, follows from what the
resolver hands on. -/

namespace SchemaCompiler

/-! ## What a declared table asks for -/

/-- Whether a column is a reference with a delete action that the server has to enforce. -/
def ColumnDeclaration.isEnforced (c : ColumnDeclaration) : Bool :=
  decide (c.kind = "FK") && c.onDelete.any fun text => OnDelete.ofText? text ≠ some .noAction

/-- The foreign key that a declared reference asks for: it names what the path of the reference denotes,
and the database where that is not the reference's own. -/
inductive ColumnDeclaration.AsksFor (databases : List DatabaseDeclaration)
    (home : DatabaseDeclaration) (c : ColumnDeclaration) : Ddl.Constraint → Prop where
  | intro {path text : String} {target : Target} {action : OnDelete} {database : Option String}
      (hpath : c.path = some path) (htarget : Denotes databases home path target)
      (honDelete : c.onDelete = some text) (haction : OnDelete.ofText? text = some action)
      (hdatabase : database.getD home.name = target.database.name) :
      AsksFor databases home c
        (.foreignKey c.name database target.table.name target.column.name action.sql)

/-- What the statement for a declared table is, among all tables that are created. -/
structure TableDeclaration.CreatedAs (databases : List DatabaseDeclaration)
    (created : List Ddl.Creation) (home : DatabaseDeclaration) (t : TableDeclaration)
    (creation : Ddl.Creation) : Prop where
  database : creation.database = home.name
  name : creation.table.name = t.name
  columns : creation.table.columns.map (·.name) = t.columns.map (·.name)
  foreignKeys : List.Forall₂ (fun c k => c.AsksFor databases home k) (t.columns.filter (·.isEnforced))
    (creation.table.constraints.filter (·.isForeignKey))
  constraints : ∀ k ∈ creation.table.constraints, k.Holds created creation
  primary : creation.table.constraints.countP (·.isPrimaryKey) ≤ 1

/-- The tables of a document with the databases that hold them. -/
def Document.tables (d : Document) : List (DatabaseDeclaration × TableDeclaration) :=
  d.databases.flatMap fun database => database.tables.map fun t => (database, t)

/-! ## Created tables -/

namespace Ddl

/-- The tables that all scripts of a schema create. -/
def created (options : Options) (s : Schema) : List Creation :=
  (scripts options s).flatMap fun entry => entry.2.creations

theorem creations_createTables (database : String) (ts : List Schema.Table) :
    creations (some database) (ts.map fun t => .createTable (createTable t)) =
      ts.map fun t => ⟨database, createTable t⟩ := by
  induction ts with
  | nil => rfl
  | cons t ts ih => simp [creations, ih]

theorem creations_script (options : Options) (d : Schema.Database) :
    (script options d).creations = d.tables.map fun t => ⟨d.name, createTable t⟩ :=
  creations_createTables d.name d.tables

theorem created_eq (options : Options) (s : Schema) : created options s =
    s.databases.flatMap fun d => d.tables.map fun t => ⟨d.name, createTable t⟩ := by
  simp only [created, scripts, List.flatMap_map, creations_script]

/-- The created tables of two names are the tables of those names. -/
theorem filter_created (options : Options) (s : Schema) (database table : String) :
    (created options s).filter (fun x => x.database = database ∧ x.table.name = table) =
      (s.databases.filter (·.name = database)).flatMap fun d =>
        (d.tables.filter (·.name = table)).map fun t => ⟨d.name, createTable t⟩ := by
  rw [created_eq]
  induction s.databases with
  | nil => rfl
  | cons d ds ih =>
      have htables : (d.tables.map fun t => Creation.mk d.name (createTable t)).filter
          (fun x => x.database = database ∧ x.table.name = table) =
            if d.name = database then
              (d.tables.filter (·.name = table)).map fun t => ⟨d.name, createTable t⟩
            else [] := by
        rw [List.filter_map]
        by_cases hname : d.name = database
        · simp [Function.comp_def, createTable, hname]
        · simp [Function.comp_def, hname]
      rw [List.flatMap_cons, List.filter_append, ih, htables]
      by_cases hname : d.name = database <;> simp [hname]

/-- The column that a reference names is defined by the scripts, as the only one of its names. -/
theorem denotes_of_isTarget (options : Options) {s : Schema} {fk : ForeignKey} {t : Column}
    (h : s.IsTarget fk t) {current : String} {database : Option String}
    (hdatabase : database.getD current = fk.database) :
    Denotes (created options s) current database fk.table fk.column ⟨t.name, typeClause t⟩ := by
  obtain ⟨d, table, hd, htable, ht⟩ := h
  refine ⟨⟨d.name, createTable table⟩, ?_, ?_⟩
  · rw [filter_created, hdatabase, hd]
    simp [htable]
  · simp only [CreateTable.Defines, createTable, List.filter_map, Function.comp_def, ht,
      List.map_cons, List.map_nil]

theorem defines_createTable {t : Schema.Table} (h : (t.columns.map (·.name)).Nodup) {c : Column}
    (hc : c ∈ t.columns) : (createTable t).Defines c.name ⟨c.name, typeClause c⟩ := by
  simp only [CreateTable.Defines, createTable, List.filter_map, Function.comp_def,
    filter_eq_singleton_of_nodup h hc, List.map_cons, List.map_nil]

end Ddl

/-- A reference is defined with the data type and the sign of its target. -/
theorem ColumnType.Inherits.dataType_eq {target own : ColumnType} (h : target.Inherits own) :
    Ddl.dataType target = Ddl.dataType own ∧ Ddl.isUnsigned target = Ddl.isUnsigned own := by
  cases h <;> exact ⟨rfl, rfl⟩

/-! ## Declared references -/

/-- Items that one test keeps match those that the other side makes something of. -/
theorem forall₂_filter_filterMap {α β γ : Type} {R : α → β → Prop} {S : α → γ → Prop}
    {p : α → Bool} {f : β → Option γ} {as : List α} {bs : List β} (h : List.Forall₂ R as bs)
    (hsome : ∀ a b, R a b → p a = (f b).isSome) (hrel : ∀ a b c, R a b → f b = some c → S a c) :
    List.Forall₂ S (as.filter p) (bs.filterMap f) := by
  induction h with
  | nil => exact .nil
  | @cons a b as bs hab _ ih =>
      have hp := hsome a b hab
      cases hf : f b with
      | none =>
          rw [hf, Option.isSome_none] at hp
          rwa [List.filter_cons_of_neg (by simp [hp]), List.filterMap_cons_none hf]
      | some c =>
          rw [hf, Option.isSome_some] at hp
          rw [List.filter_cons_of_pos hp, List.filterMap_cons_some hf]
          exact .cons (hrel a b c hab hf) ih

section Columns

variable {databases : List DatabaseDeclaration} {home : DatabaseDeclaration} {c : ColumnDeclaration}
  {column : Column}

/-- How a compiled reference comes from its declaration. -/
structure ColumnDeclaration.Follows (databases : List DatabaseDeclaration)
    (home : DatabaseDeclaration) (c : ColumnDeclaration) (column : Column) (fk : ForeignKey)
    (t : Target) (resolved : Column) : Prop where
  path : ∃ path, c.path = some path ∧ findTarget databases home path = .ok t
  settles : ∃ n, ForeignKey.Settles databases n t resolved
  nullable : resolved.nullable = false
  type : resolved.type.Inherits column.type
  database : fk.database = t.database.name
  crossDatabase : fk.crossDatabase ↔ fk.database ≠ home.name
  table : fk.table = t.table.name
  column : fk.column = t.column.name
  action : c.deleteAction = .ok fk.onDelete

theorem ColumnDeclaration.Becomes.follows (h : c.Becomes databases home column) {fk : ForeignKey}
    (hfk : column.foreignKey = some fk) :
    ∃ t resolved, c.Follows databases home column fk t resolved := by
  obtain ⟨path, t, n, resolved, hpath, ht, hsettles, hrefer⟩ := resolves_of_foreignKey h hfk
  obtain ⟨hnullable, size, unsigned, bounds, _, _, _, hreferable, haction, -, -, rfl⟩ :=
    ColumnDeclaration.refer_eq_ok.mp hrefer
  cases hfk
  exact ⟨t, resolved,
    { path := ⟨path, hpath, ht⟩
      settles := ⟨n, hsettles⟩
      nullable := hnullable
      type := (ColumnType.inherits_of_referable? hreferable).1
      database := rfl
      crossDatabase := by simp
      table := rfl
      column := rfl
      action := haction }⟩

theorem ColumnDeclaration.Becomes.foreignKey_isSome (h : c.Becomes databases home column) :
    column.foreignKey.isSome ↔ c.kind = "FK" := by
  rcases h with ⟨hkind, hvalidate⟩ | ⟨hkind, hresolve⟩
  · obtain ⟨_, -, houtline⟩ := ColumnDeclaration.validate_outline hvalidate
    rw [houtline.foreignKey]
    simpa using ColumnDeclaration.isReference_eq_false_iff.mp hkind
  · obtain ⟨_, _, _, _, -, -, -, hrefer⟩ := ForeignKey.settles_of_resolveFrom hresolve
    obtain ⟨-, _, _, _, _, _, _, -, -, -, -, rfl⟩ := ColumnDeclaration.refer_eq_ok.mp hrefer
    simpa using ColumnDeclaration.isReference_iff.mp hkind

open Ddl

theorem referenceConstraint?_eq_some {k : Constraint} : referenceConstraint? column = some k ↔
    ∃ fk action, column.foreignKey = some fk ∧ fk.onDelete = some action ∧ action ≠ .noAction ∧
      Constraint.foreignKey column.name (if fk.crossDatabase then some fk.database else none) fk.table
        fk.column action.sql = k := by
  simp only [referenceConstraint?, ForeignKey.enforced?, Option.bind_eq_bind, Option.bind_eq_some_iff,
    Option.filter_eq_some_iff, Option.pure_def, Option.some.injEq, decide_eq_true_eq, and_assoc,
    exists_and_left]

theorem referenceConstraint?_isSome : (referenceConstraint? column).isSome ↔
    ∃ fk action, column.foreignKey = some fk ∧ fk.onDelete = some action ∧ action ≠ .noAction := by
  simp only [Option.isSome_iff_exists, referenceConstraint?_eq_some]
  constructor
  · rintro ⟨_, fk, action, hfk, haction, hno, -⟩
    exact ⟨fk, action, hfk, haction, hno⟩
  · rintro ⟨fk, action, hfk, haction, hno⟩
    exact ⟨_, fk, action, hfk, haction, hno, rfl⟩

/-- Exactly the references with an enforced action have a clause. -/
theorem isEnforced_eq (h : c.Becomes databases home column) :
    c.isEnforced = (referenceConstraint? column).isSome := by
  rw [Bool.eq_iff_iff, referenceConstraint?_isSome]
  simp only [ColumnDeclaration.isEnforced, Bool.and_eq_true, decide_eq_true_eq, Option.any_eq_true]
  constructor
  · rintro ⟨hkind, text, honDelete, hno⟩
    obtain ⟨fk, hfk⟩ := Option.isSome_iff_exists.mp (h.foreignKey_isSome.mpr hkind)
    obtain ⟨_, _, hfollows⟩ := h.follows hfk
    rcases ColumnDeclaration.deleteAction_eq_ok.mp hfollows.action with
      ⟨hnone, -⟩ | ⟨_, a, hsome, ha, -, haction⟩
    · cases hnone.symm.trans honDelete
    · cases hsome.symm.trans honDelete
      exact ⟨fk, a, hfk, haction, fun hnoAction => hno (hnoAction ▸ ha)⟩
  · rintro ⟨fk, action, hfk, haction, hno⟩
    obtain ⟨_, _, hfollows⟩ := h.follows hfk
    rcases ColumnDeclaration.deleteAction_eq_ok.mp hfollows.action with
      ⟨-, hnone⟩ | ⟨text, a, honDelete, ha, -, hsome⟩
    · cases hnone.symm.trans haction
    · cases hsome.symm.trans haction
      exact ⟨h.foreignKey_isSome.mp (by simp [hfk]), text, honDelete, by simp [ha, hno]⟩

/-- A clause names a database exactly where the reference leaves its own. -/
theorem getD_database {fk : ForeignKey} {current : String}
    (h : fk.crossDatabase ↔ fk.database ≠ current) :
    (if fk.crossDatabase then some fk.database else none).getD current = fk.database := by
  by_cases hcross : fk.crossDatabase
  · simp [hcross]
  · have hsame : fk.database = current := by
      by_contra hne
      exact hcross (h.mpr hne)
    simp [hcross, hsame]

theorem asksFor_of_referenceConstraint? (hhome : home ∈ databases)
    (h : c.Becomes databases home column) {k : Constraint}
    (hk : referenceConstraint? column = some k) : c.AsksFor databases home k := by
  obtain ⟨fk, action, hfk, haction, -, rfl⟩ := referenceConstraint?_eq_some.mp hk
  obtain ⟨t, _, hfollows⟩ := h.follows hfk
  obtain ⟨path, hpath, ht⟩ := hfollows.path
  rcases ColumnDeclaration.deleteAction_eq_ok.mp hfollows.action with
    ⟨-, hnone⟩ | ⟨text, a, honDelete, ha, -, hsome⟩
  · cases hnone.symm.trans haction
  · cases hsome.symm.trans haction
    rw [h.keeps.name, hfollows.table, hfollows.column]
    exact .intro hpath (denotes_of_findTarget hhome ht) honDelete ha
      ((getD_database hfollows.crossDatabase).trans hfollows.database)

end Columns

/-! ## Declared tables -/

section Tables

open Ddl

variable {d : Document} {s : Schema} {home : DatabaseDeclaration} {database : Schema.Database}
  {t : TableDeclaration} {table : Schema.Table}

theorem isForeignKey_indexConstraint (i : Schema.Index) :
    (indexConstraint i).isForeignKey = false := by
  unfold indexConstraint
  split <;> rfl

theorem isForeignKey_of_referenceConstraint? {c : Column} {k : Constraint}
    (h : referenceConstraint? c = some k) : k.isForeignKey ∧ k.isPrimaryKey = false := by
  obtain ⟨_, _, -, -, -, rfl⟩ := referenceConstraint?_eq_some.mp h
  exact ⟨rfl, rfl⟩

theorem filter_isForeignKey (table : Schema.Table) :
    (createTable table).constraints.filter (·.isForeignKey) =
      table.columns.filterMap referenceConstraint? := by
  have hindexes : (table.indexes.map indexConstraint).filter (·.isForeignKey) = [] := by
    simp [List.filter_eq_nil_iff, isForeignKey_indexConstraint]
  have hreferences : (table.columns.filterMap referenceConstraint?).filter (·.isForeignKey) =
      table.columns.filterMap referenceConstraint? := by
    rw [List.filter_eq_self]
    intro k hk
    obtain ⟨c, -, hc⟩ := List.mem_filterMap.mp hk
    exact (isForeignKey_of_referenceConstraint? hc).1
  rw [createTable, List.filter_append, hindexes, hreferences, List.nil_append]

theorem countP_isPrimaryKey (table : Schema.Table) :
    (createTable table).constraints.countP (·.isPrimaryKey) =
      table.indexes.countP (·.kind = .primary) := by
  have hindexes : (table.indexes.map indexConstraint).countP (·.isPrimaryKey) =
      table.indexes.countP (·.kind = .primary) := by
    rw [List.countP_map]
    congr 1
    funext i
    unfold Function.comp indexConstraint
    cases i.kind <;> rfl
  have hreferences : (table.columns.filterMap referenceConstraint?).countP (·.isPrimaryKey) = 0 := by
    rw [List.countP_eq_zero]
    intro k hk
    obtain ⟨c, -, hc⟩ := List.mem_filterMap.mp hk
    simp [(isForeignKey_of_referenceConstraint? hc).2]
  rw [createTable, List.countP_append, hindexes, hreferences, Nat.add_zero]

/-- The constraint of an index names columns of its table. -/
theorem holds_indexConstraint {created : List Creation} {holder : Creation} {i : Schema.Index}
    (h : ∀ name ∈ i.columns, ∃ c ∈ holder.table.columns, c.name = name) :
    (indexConstraint i).Holds created holder := by
  unfold indexConstraint
  cases i.kind with
  | primary => exact .primaryKey h
  | unique => exact .unique h
  | index => exact .index h

/-- The constraint of a reference finds a column that is defined like its own. -/
theorem holds_referenceConstraint? (options : Options) (h : d.Becomes s) (hhome : home ∈ d.databases)
    (hdatabase : home.Becomes d.databases database) (htable : t.Becomes d.databases home table)
    {column : Column} (hcolumn : column ∈ table.columns) {k : Constraint}
    (hk : referenceConstraint? column = some k) :
    k.Holds (created options s) ⟨database.name, createTable table⟩ := by
  obtain ⟨fk, action, hfk, -, -, rfl⟩ := referenceConstraint?_eq_some.mp hk
  obtain ⟨c, hc, -, hbecomes⟩ := exists_of_mem_right htable.columns hcolumn
  obtain ⟨target, resolved, hfollows⟩ := hbecomes.follows hfk
  obtain ⟨path, hpath, hfind⟩ := hfollows.path
  obtain ⟨n, hsettles⟩ := hfollows.settles
  have hnames : (table.columns.map (·.name)).Nodup := htable.columnNames ▸ htable.distinct
  have hcross : fk.crossDatabase ↔ fk.database ≠ database.name :=
    hdatabase.name.symm ▸ hfollows.crossDatabase
  obtain ⟨hdataType, hunsigned⟩ := hfollows.type.dataType_eq
  refine .foreignKey (defines_createTable hnames hcolumn)
    (denotes_of_isTarget options ?_ (getD_database hcross)) ?_ hdataType hunsigned
  · exact h.isTarget (findTarget_declared hhome hfind) hsettles hfollows.database hfollows.table
      hfollows.column
  · simp [typeClause, hfollows.nullable]

theorem createdAs_of_becomes (options : Options) (h : d.Becomes s) (hhome : home ∈ d.databases)
    (hdatabase : home.Becomes d.databases database) (htable : t.Becomes d.databases home table) :
    t.CreatedAs d.databases (created options s) home ⟨database.name, createTable table⟩ where
  database := hdatabase.name
  name := htable.name
  columns := by
    rw [htable.columnNames]
    simp [createTable, Function.comp_def]
  foreignKeys := by
    rw [filter_isForeignKey]
    exact forall₂_filter_filterMap htable.columns (fun _ _ hc => isEnforced_eq hc.2)
      fun _ _ _ hc hk => asksFor_of_referenceConstraint? hhome hc.2 hk
  constraints := by
    intro k hk
    rcases List.mem_append.mp hk with hk | hk
    · obtain ⟨i, hi, rfl⟩ := List.mem_map.mp hk
      obtain ⟨_, -, hindex⟩ := exists_of_mem_right htable.indexes hi
      obtain ⟨-, hcolumns, -, hknown⟩ := IndexDeclaration.compile_eq_ok.mp hindex
      apply holds_indexConstraint
      intro name hname
      obtain ⟨c, hc, rfl⟩ := hknown name (hcolumns ▸ hname)
      exact ⟨⟨c.name, typeClause c⟩, List.mem_map_of_mem hc, rfl⟩
    · obtain ⟨c, hc, hk⟩ := List.mem_filterMap.mp hk
      exact holds_referenceConstraint? options h hhome hdatabase htable hc hk
  primary := by
    rw [countP_isPrimaryKey]
    exact htable.primary

/-- The scripts of a compiled document create its tables in order. Each has a foreign key for every
reference with an enforced action, all constraints hold among the tables that the scripts create, and no
table has two primary keys. -/
theorem Document.compile_constraints_hold {d : Document} {s : Schema} (h : d.compile = .ok s)
    (options : Options) : List.Forall₂ (fun declared creation =>
      declared.2.CreatedAs d.databases (created options s) declared.1 creation) d.tables
      (created options s) := by
  have hbecomes := compile_eq_ok.mp h
  have hdatabases := (List.forall₂_and_left _ _).mpr ⟨fun _ hd => hd, hbecomes.databases⟩
  have hcreated : List.Forall₂ (fun declared creation =>
      declared.2.CreatedAs d.databases (created options s) declared.1 creation) d.tables
      (s.databases.flatMap fun d => d.tables.map fun t => ⟨d.name, createTable t⟩) := by
    refine List.rel_flatMap hdatabases ?_
    rintro home database ⟨hhome, hdatabase⟩
    rw [List.forall₂_map_left_iff, List.forall₂_map_right_iff]
    exact hdatabase.tables.imp fun _ _ htable =>
      createdAs_of_becomes options hbecomes hhome hdatabase htable
  rwa [← created_eq options s] at hcreated

theorem Document.compile_constraints_hold_chained :
    Document.chained.compile = .ok Schema.Chained.schema ∧
      List.Forall₂ (fun declared creation => declared.2.CreatedAs Document.chained.databases
        (created {} Schema.Chained.schema) declared.1 creation) Document.chained.tables
        (created {} Schema.Chained.schema) := by
  have h : Document.chained.compile = .ok Schema.Chained.schema := by cbv
  exact ⟨h, compile_constraints_hold h {}⟩

end Tables

end SchemaCompiler
