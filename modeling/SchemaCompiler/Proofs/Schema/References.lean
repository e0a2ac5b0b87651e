import SchemaCompiler.Proofs.Schema.Compilation
import Mathlib

/-! # References of a compiled schema

The resolver reads declarations and never the compiled columns. That the two agree is a property of
whole schemas: what a reference names is there, once, and has the type that the reference took over. -/

namespace SchemaCompiler

/-! ## Targets -/

/-- The only column of a schema that has the names of a reference. -/
def Schema.IsTarget (s : Schema) (fk : ForeignKey) (t : Column) : Prop :=
  ∃ database table, s.databases.filter (·.name = fk.database) = [database] ∧
    database.tables.filter (·.name = fk.table) = [table] ∧
    table.columns.filter (·.name = fk.column) = [t]

/-- The type of a reference, given the type of its target. -/
inductive ColumnType.Inherits : ColumnType → ColumnType → Prop where
  | integer {size unsigned autoIncrement bounds} :
      Inherits (.integer size unsigned autoIncrement bounds) (.integer size unsigned false bounds)
  | serial {size bounds} : Inherits (.serial size bounds) (.integer size true false bounds)
  | code {domain} :
      Inherits (.code domain) (.integer .tiny true false (IntegerSize.tiny.bounds true))

/-- What holds between a reference and its target. -/
structure Column.RefersTo (c : Column) (fk : ForeignKey) (holder : Schema.Database) (t : Column) :
    Prop where
  nullable : t.nullable = false
  type : t.type.Inherits c.type
  bounds : c.bounds? = t.bounds?
  crossDatabase : fk.crossDatabase ↔ fk.database ≠ holder.name

theorem ColumnType.inherits_of_referable? {type : ColumnType} {size : IntegerSize} {unsigned : Bool}
    {bounds : Bounds} (h : type.referable? = some (size, unsigned, bounds)) :
    type.Inherits (.integer size unsigned false bounds) ∧ type.bounds? = some bounds := by
  cases type with
  | integer =>
      cases h
      exact ⟨.integer, rfl⟩
  | serial =>
      cases h
      exact ⟨.serial, rfl⟩
  | code =>
      cases h
      exact ⟨.code, rfl⟩
  | timestamp | string | binary | boolean => cases h

/-- Of items with distinct keys, only one has the key of a given one. -/
theorem filter_eq_singleton_of_nodup {α : Type} {key : α → String} {as : List α}
    (h : (as.map key).Nodup) {a : α} (ha : a ∈ as) : as.filter (key · = key a) = [a] := by
  induction as with
  | nil => simp at ha
  | cons b as ih =>
      rw [List.map_cons, List.nodup_cons] at h
      rcases List.mem_cons.mp ha with rfl | ha
      · have hnone : as.filter (key · = key a) = [] := by
          rw [List.filter_eq_nil_iff]
          intro x hx hkey
          exact h.1 (of_decide_eq_true hkey ▸ List.mem_map_of_mem hx)
        simp [hnone]
      · have hne : key b ≠ key a := fun he => h.1 (he ▸ List.mem_map_of_mem ha)
        rw [List.filter_cons_of_neg (by simpa using hne)]
        exact ih h.2 ha

/-! ## Agreement of the resolver with the compiler -/

section Agreement

open ForeignKey

variable {databases : List DatabaseDeclaration}

/-- A column becomes what a reference to it settles as. -/
theorem settles_of_becomes {t : Target} {column : Column}
    (h : t.column.Becomes databases t.database column) : ∃ n, Settles databases n t column := by
  rcases h with ⟨hkind, hvalidate⟩ | ⟨hkind, hresolve⟩
  · exact ⟨0, .declared hkind hvalidate⟩
  · obtain ⟨path, next, n, resolved, hpath, hnext, hsettles, hrefer⟩ :=
      settles_of_resolveFrom hresolve
    exact ⟨n + 1, .reference hkind hpath hnext hsettles hrefer⟩

/-- A compiled column with a reference comes from a declared one that resolved. -/
theorem resolves_of_foreignKey {home : DatabaseDeclaration} {c : ColumnDeclaration}
    {column : Column} {fk : ForeignKey} (h : c.Becomes databases home column)
    (hfk : column.foreignKey = some fk) : Resolves databases home c column := by
  rcases h with ⟨-, hvalidate⟩ | ⟨-, hresolve⟩
  · obtain ⟨_, -, houtline⟩ := ColumnDeclaration.validate_outline hvalidate
    rw [houtline.foreignKey] at hfk
    cases hfk
  · exact settles_of_resolveFrom hresolve

end Agreement

/-! ## Schemas -/

/-- Where a declared target settles, the schema has its column as the only one of its names. -/
theorem Document.Becomes.isTarget {d : Document} {s : Schema} (h : d.Becomes s) {n : Nat}
    {t : Target} {column : Column} {fk : ForeignKey} (ht : t.Declared d.databases)
    (hsettles : ForeignKey.Settles d.databases n t column) (hdatabase : fk.database = t.database.name)
    (htable : fk.table = t.table.name) (hcolumn : fk.column = t.column.name) :
    s.IsTarget fk column := by
  obtain ⟨database, hmemD, hbecomesD⟩ := exists_of_mem_left h.databases ht.database
  obtain ⟨table, hmemT, hbecomesT⟩ := exists_of_mem_left hbecomesD.tables ht.table_mem
  obtain ⟨compiled, hmemC, -, hbecomesC⟩ := exists_of_mem_left hbecomesT.columns ht.column_mem
  obtain ⟨m, hsettles'⟩ := settles_of_becomes hbecomesC
  obtain ⟨-, rfl⟩ := hsettles.unique hsettles'
  have hnames : (s.databases.map (·.name)).Nodup := h.databaseNames ▸ h.names
  have htables : (database.tables.map (·.name)).Nodup := hbecomesD.tableNames ▸ hbecomesD.distinct
  have hcolumns : (table.columns.map (·.name)).Nodup := hbecomesT.columnNames ▸ hbecomesT.distinct
  refine ⟨database, table, ?_, ?_, ?_⟩
  · rw [hdatabase, ← hbecomesD.name]
    exact filter_eq_singleton_of_nodup hnames hmemD
  · rw [htable, ← hbecomesT.name]
    exact filter_eq_singleton_of_nodup htables hmemT
  · rw [hcolumn, ← hbecomesC.keeps.name]
    exact filter_eq_singleton_of_nodup hcolumns hmemC

/-- Every reference of a compiled schema has one target there, and agrees with it. -/
theorem Document.compile_references {d : Document} {s : Schema} (h : d.compile = .ok s)
    {holder : Schema.Database} (hholder : holder ∈ s.databases) {table : Schema.Table}
    (htable : table ∈ holder.tables) {c : Column} (hc : c ∈ table.columns) {fk : ForeignKey}
    (hfk : c.foreignKey = some fk) : ∃ t, s.IsTarget fk t ∧ c.RefersTo fk holder t := by
  have hbecomes := compile_eq_ok.mp h
  obtain ⟨home, hhome, hbecomesD⟩ := exists_of_mem_right hbecomes.databases hholder
  obtain ⟨_, -, hbecomesT⟩ := exists_of_mem_right hbecomesD.tables htable
  obtain ⟨_, -, -, hbecomesC⟩ := exists_of_mem_right hbecomesT.columns hc
  obtain ⟨path, t, n, resolved, hpath, ht, hsettles, hrefer⟩ := resolves_of_foreignKey hbecomesC hfk
  obtain ⟨hnullable, size, unsigned, bounds, _, _, _, hreferable, -, -, -, rfl⟩ :=
    ColumnDeclaration.refer_eq_ok.mp hrefer
  obtain ⟨hinherits, hbounds⟩ := ColumnType.inherits_of_referable? hreferable
  cases hfk
  have hdeclared := findTarget_declared hhome ht
  refine ⟨resolved, hbecomes.isTarget hdeclared hsettles rfl rfl rfl, ?_⟩
  exact { nullable := hnullable
          type := hinherits
          bounds := hbounds.symm
          crossDatabase := by simp [hbecomesD.name] }

/-! ## A chain across databases -/

/-- An order refers to the next user, who refers to a user that is declared after it. -/
def Document.chained : Document where
  databases := [
    { name := "main", kind := "fixed", tables := [{ name := "user", columns := [
        { name := "next", kind := "FK", path := some "user.id" },
        { name := "id", kind := "serial", size := some "INT" }] }] },
    { name := "shop", kind := "instance", tables := [{ name := "orders", columns := [
        { name := "buyer", kind := "FK", nullable := true, path := some "fixed.user.next",
          onDelete := some "SET NULL" }] }] }]

namespace Schema.Chained

def bounds : Bounds := ⟨1, 4294967295⟩

def id : Column := ⟨"id", false, none, .serial .regular bounds, none⟩

def next : Column :=
  ⟨"next", false, none, .integer .regular true false bounds,
    some ⟨"main", false, "user", "id", none⟩⟩

def reference : ForeignKey := ⟨"main", true, "user", "next", some .setNull⟩

def buyer : Column := ⟨"buyer", true, none, .integer .regular true false bounds, some reference⟩

def shop : Database := ⟨"shop", .tenant, [⟨"orders", [buyer], []⟩]⟩

def schema : Schema := ⟨[⟨"main", .core, [⟨"user", [next, id], []⟩]⟩, shop]⟩

end Schema.Chained

open Schema.Chained

theorem Document.compile_references_chained : Document.chained.compile = .ok schema ∧
    ∃ t, schema.IsTarget reference t ∧ buyer.RefersTo reference shop t := by
  have h : Document.chained.compile = .ok schema := by cbv
  exact ⟨h, compile_references h (.tail _ (.head _)) (.head _) (.head _) rfl⟩

end SchemaCompiler
