import SchemaCompiler.ForeignKey.Path
import SchemaCompiler.Proofs.Identifier
import SchemaCompiler.Proofs.Outcome
import SchemaCompiler.Proofs.Text
import Mathlib.Data.List.Nodup

/-! # What a reference path denotes -/

namespace SchemaCompiler

/-! ## Distinct names -/

/-- No name is declared twice in the same place. -/
structure DistinctNames (databases : List DatabaseDeclaration) : Prop where
  ofDatabases : (databases.map (·.name)).Nodup
  ofTables : ∀ d ∈ databases, (d.tables.map (·.name)).Nodup
  ofColumns : ∀ d ∈ databases, ∀ t ∈ d.tables, (t.columns.map (·.name)).Nodup

/-- No name holds a dot. -/
structure UndottedNames (databases : List DatabaseDeclaration) : Prop where
  ofDatabases : ∀ d ∈ databases, '.' ∉ d.name.toList
  ofKinds : ∀ d ∈ databases, '.' ∉ d.kind.toList
  ofTables : ∀ d ∈ databases, ∀ t ∈ d.tables, '.' ∉ t.name.toList
  ofColumns : ∀ d ∈ databases, ∀ t ∈ d.tables, ∀ c ∈ t.columns, '.' ∉ c.name.toList

/-! ## Declared targets -/

namespace Target

/-- A target whose parts are declared, each the first of its name where it stands. -/
structure Declared (databases : List DatabaseDeclaration) (t : Target) : Prop where
  database : t.database ∈ databases
  table : t.database.table? t.table.name = some t.table
  column : t.table.column? t.column.name = some t.column

theorem find_eq_ok {database : DatabaseDeclaration} {table column : String} {t : Target} :
    find database table column = .ok t ↔
      t.database = database ∧ database.table? table = some t.table ∧
        t.table.column? column = some t.column := by
  unfold find
  split
  · next h => simp [h]
  · next table' htable =>
      split
      · next h =>
          simp only [reduceCtorEq, false_iff, not_and]
          rintro - heq
          rw [htable] at heq
          cases heq
          simp [h]
      · next column' hcolumn =>
          constructor
          · intro h
            cases h
            exact ⟨rfl, htable, hcolumn⟩
          · rintro ⟨hd, ht, hc⟩
            cases t
            rw [htable] at ht
            cases ht
            rw [hcolumn] at hc
            cases hc
            cases hd
            rfl

theorem find_declared {databases : List DatabaseDeclaration} {database : DatabaseDeclaration}
    {table column : String} {t : Target} (hd : database ∈ databases)
    (h : find database table column = .ok t) :
    t.Declared databases ∧ t.table.name = table ∧ t.column.name = column := by
  obtain ⟨hdb, ht, hc⟩ := find_eq_ok.mp h
  obtain ⟨-, htn⟩ := find?_eq_some_of_named ht
  obtain ⟨-, hcn⟩ := find?_eq_some_of_named hc
  subst hdb htn hcn
  exact ⟨⟨hd, ht, hc⟩, rfl, rfl⟩

namespace Declared

variable {databases : List DatabaseDeclaration} {t u : Target}

theorem table_mem (h : t.Declared databases) : t.table ∈ t.database.tables :=
  (find?_eq_some_of_named h.table).1

theorem column_mem (h : t.Declared databases) : t.column ∈ t.table.columns :=
  (find?_eq_some_of_named h.column).1

/-- Distinct databases tell declared targets apart by their places. -/
theorem eq_of_location_eq (hnames : (databases.map (·.name)).Nodup) (ht : t.Declared databases)
    (hu : u.Declared databases) (h : t.location = u.location) : t = u := by
  simp only [location, Location.ofColumn, Location.mk.injEq, Option.some.injEq] at h
  obtain ⟨hdatabase, htable, hcolumn⟩ := h
  obtain ⟨td, tt, tc⟩ := t
  obtain ⟨ud, ut, uc⟩ := u
  have hd : td = ud := List.inj_on_of_nodup_map hnames ht.database hu.database hdatabase
  subst hd
  have hts : tt = ut := by
    have := ht.table
    rw [htable, hu.table] at this
    exact (Option.some.inj this).symm
  subst hts
  have hcs : tc = uc := by
    have := ht.column
    rw [hcolumn, hu.column] at this
    exact (Option.some.inj this).symm
  rw [hcs]

end Declared

/-- Under distinct names every column that stands in a table is a declared target. -/
theorem declared_of_mem {databases : List DatabaseDeclaration} (h : DistinctNames databases)
    {d : DatabaseDeclaration} {t : TableDeclaration} {c : ColumnDeclaration} (hd : d ∈ databases)
    (ht : t ∈ d.tables) (hc : c ∈ t.columns) : Declared databases ⟨d, t, c⟩ :=
  ⟨hd, find?_eq_some_of_nodup (h.ofTables d hd) ht, find?_eq_some_of_nodup (h.ofColumns d hd t ht) hc⟩

end Target

/-! ## Databases on a path -/

/-- A segment denotes the database of that name, or else of that type. -/
theorem findDatabase_eq_ok {databases : List DatabaseDeclaration} {segment : String}
    {d : DatabaseDeclaration} (h : findDatabase databases segment = .ok d) :
    d ∈ databases ∧ (d.name = segment ∨ d.kind = segment ∧ ∀ e ∈ databases, e.name ≠ segment) := by
  unfold findDatabase at h
  split at h
  · next hname =>
      cases h
      obtain ⟨hd, hname⟩ := find?_eq_some_of_named hname
      exact ⟨hd, .inl hname⟩
  · next hname =>
      split at h
      · next hkind =>
          cases h
          obtain ⟨hd, hkind⟩ := find?_eq_some_of_named hkind
          exact ⟨hd, .inr ⟨hkind, by simpa using hname⟩⟩
      · cases h

theorem findDatabase_of_name {databases : List DatabaseDeclaration} {d : DatabaseDeclaration}
    (h : (databases.map (·.name)).Nodup) (hd : d ∈ databases) :
    findDatabase databases d.name = .ok d := by
  rw [findDatabase, find?_eq_some_of_nodup h hd]

theorem findDatabase_of_kind {databases : List DatabaseDeclaration} {d : DatabaseDeclaration}
    (h : (databases.map (·.kind)).Nodup) (hd : d ∈ databases)
    (hname : ∀ e ∈ databases, e.name ≠ d.kind) : findDatabase databases d.kind = .ok d := by
  have hnone : databases.find? (·.name = d.kind) = none := by simpa using hname
  rw [findDatabase, hnone, find?_eq_some_of_nodup h hd]

/-! ## Paths -/

/-- The target that a path written in the database `home` denotes. -/
inductive Denotes (databases : List DatabaseDeclaration) (home : DatabaseDeclaration) :
    String → Target → Prop where
  | inner {table column} (ht : table ∈ home.tables) (hc : column ∈ table.columns) :
      Denotes databases home (".".intercalate [table.name, column.name]) ⟨home, table, column⟩
  | named {database table column} (hd : database ∈ databases) (ht : table ∈ database.tables)
      (hc : column ∈ table.columns) :
      Denotes databases home (".".intercalate [database.name, table.name, column.name])
        ⟨database, table, column⟩
  | typed {database table column} (hd : database ∈ databases)
      (hname : ∀ d ∈ databases, d.name ≠ database.kind) (ht : table ∈ database.tables)
      (hc : column ∈ table.columns) :
      Denotes databases home (".".intercalate [database.kind, table.name, column.name])
        ⟨database, table, column⟩

variable {databases : List DatabaseDeclaration} {home : DatabaseDeclaration} {path : String}
  {t : Target}

/-- What a path denotes stands in the document. -/
theorem Denotes.mem (h : Denotes databases home path t) (hhome : home ∈ databases) :
    t.database ∈ databases ∧ t.table ∈ t.database.tables ∧ t.column ∈ t.table.columns := by
  cases h with
  | inner ht hc => exact ⟨hhome, ht, hc⟩
  | named hd ht hc => exact ⟨hd, ht, hc⟩
  | typed hd _ ht hc => exact ⟨hd, ht, hc⟩

/-- A path of two segments stays in its database, one of three names the database first. -/
theorem findTarget_eq_ok : findTarget databases home path = .ok t ↔
    ∃ table column, (Text.dotted path = [table, column] ∧ Target.find home table column = .ok t) ∨
      ∃ segment database, Text.dotted path = [segment, table, column] ∧
        findDatabase databases segment = .ok database ∧
        Target.find database table column = .ok t := by
  unfold findTarget
  split
  · next table column h => simp [h]
  · next segment table column h => simp [h, bind_eq_ok]
  · next h2 h3 =>
      simp only [reduceCtorEq, false_iff]
      rintro ⟨table, column, ⟨hpath, -⟩ | ⟨segment, -, hpath, -⟩⟩
      · exact h2 _ _ hpath
      · exact h3 _ _ _ hpath

theorem findTarget_declared (hhome : home ∈ databases)
    (h : findTarget databases home path = .ok t) : t.Declared databases := by
  obtain ⟨table, column, ⟨-, hfind⟩ | ⟨segment, database, -, hdb, hfind⟩⟩ := findTarget_eq_ok.mp h
  · exact (Target.find_declared hhome hfind).1
  · exact (Target.find_declared (findDatabase_eq_ok hdb).1 hfind).1

theorem denotes_of_findTarget (hhome : home ∈ databases)
    (h : findTarget databases home path = .ok t) : Denotes databases home path t := by
  rw [← Text.intercalate_dotted path]
  obtain ⟨database, table, column⟩ := t
  obtain ⟨_, _, ⟨hpath, hfind⟩ | ⟨segment, _, hpath, hdb, hfind⟩⟩ := findTarget_eq_ok.mp h
  · obtain ⟨hdeclared, rfl, rfl⟩ := Target.find_declared hhome hfind
    obtain ⟨rfl, -, -⟩ := Target.find_eq_ok.mp hfind
    rw [hpath]
    exact .inner hdeclared.table_mem hdeclared.column_mem
  · obtain ⟨hmem, hsegment⟩ := findDatabase_eq_ok hdb
    obtain ⟨hdeclared, rfl, rfl⟩ := Target.find_declared hmem hfind
    obtain ⟨rfl, -, -⟩ := Target.find_eq_ok.mp hfind
    rw [hpath]
    rcases hsegment with rfl | ⟨rfl, hname⟩
    · exact .named hmem hdeclared.table_mem hdeclared.column_mem
    · exact .typed hmem hname hdeclared.table_mem hdeclared.column_mem

theorem Target.find_of_mem (hnames : DistinctNames databases) {d : DatabaseDeclaration}
    {table : TableDeclaration} {column : ColumnDeclaration} (hd : d ∈ databases)
    (ht : table ∈ d.tables) (hc : column ∈ table.columns) :
    Target.find d table.name column.name = .ok ⟨d, table, column⟩ := by
  have h := Target.declared_of_mem hnames hd ht hc
  exact Target.find_eq_ok.mpr ⟨rfl, h.table, h.column⟩

theorem findTarget_of_denotes (hnames : DistinctNames databases)
    (hkinds : (databases.map (·.kind)).Nodup) (hplain : UndottedNames databases)
    (hhome : home ∈ databases) (h : Denotes databases home path t) :
    findTarget databases home path = .ok t := by
  rw [findTarget_eq_ok]
  cases h with
  | @inner table column ht hc =>
      refine ⟨_, _, .inl ⟨Text.dotted_intercalate (by simp) ?_,
        Target.find_of_mem hnames hhome ht hc⟩⟩
      simpa using ⟨hplain.ofTables _ hhome _ ht, hplain.ofColumns _ hhome _ ht _ hc⟩
  | @named database table column hd ht hc =>
      refine ⟨_, _, .inr ⟨_, database, Text.dotted_intercalate (by simp) ?_,
        findDatabase_of_name hnames.ofDatabases hd, Target.find_of_mem hnames hd ht hc⟩⟩
      simpa using ⟨hplain.ofDatabases _ hd, hplain.ofTables _ hd _ ht,
        hplain.ofColumns _ hd _ ht _ hc⟩
  | @typed database table column hd hname ht hc =>
      refine ⟨_, _, .inr ⟨_, database, Text.dotted_intercalate (by simp) ?_,
        findDatabase_of_kind hkinds hd hname, Target.find_of_mem hnames hd ht hc⟩⟩
      simpa using ⟨hplain.ofKinds _ hd, hplain.ofTables _ hd _ ht, hplain.ofColumns _ hd _ ht _ hc⟩

end SchemaCompiler
