import SchemaCompiler.Proofs.Descriptor.Emission

/-! # What is found by its name

Names are distinct among their siblings, so that a name leads to what has it: in a compiled schema, and in
its descriptor to the record of what it leads to in the schema. -/

namespace SchemaCompiler

variable {d : Document} {s : Schema} {database : Schema.Database} {table : Schema.Table} {c : Column}

theorem Document.compile_lookup (h : d.compile = .ok s) (hdatabase : database ∈ s.databases)
    (htable : table ∈ database.tables) (hc : c ∈ table.columns) :
    s.database? database.kind = some database ∧ database.table? table.name = some table ∧
      table.column? c.name = some c := by
  have hbecomes := compile_eq_ok.mp h
  obtain ⟨_, -, hbecomesD⟩ := exists_of_mem_right hbecomes.databases hdatabase
  obtain ⟨_, -, hbecomesT⟩ := exists_of_mem_right hbecomesD.tables htable
  have htables : (database.tables.map (·.name)).Nodup := hbecomesD.tableNames ▸ hbecomesD.distinct
  have hcolumns : (table.columns.map (·.name)).Nodup := hbecomesT.columnNames ▸ hbecomesT.distinct
  exact ⟨find?_eq_some_of_nodup hbecomes.nodup_kinds hdatabase, find?_eq_some_of_nodup htables htable,
    find?_eq_some_of_nodup hcolumns hc⟩

namespace Descriptor

variable {descriptor : Descriptor} {r : DatabaseRecord}

theorem column?_tableRecord (t : Schema.Table) (name : String) :
    (tableRecord t).column? name = (t.column? name).map columnRecord :=
  List.find?_map

theorem table?_databaseRecord (h : databaseRecord database = .ok r) (name : String) :
    r.table? name = (database.table? name).map tableRecord := by
  obtain ⟨-, rfl⟩ := databaseRecord_eq_ok.mp h
  exact List.find?_map

theorem database?_ofSchema (h : d.compile = .ok s) (hd : ofSchema s = .ok descriptor)
    (hdatabase : database ∈ s.databases) : ∃ r, databaseRecord database = .ok r ∧
      descriptor.database? database.kind.namespaceName = some r := by
  have hrecords := ofSchema_eq_ok.mp hd
  obtain ⟨r, hmem, hr⟩ := exists_of_mem_left hrecords hdatabase
  have hname : r.namespaceName = database.kind.namespaceName := by
    obtain ⟨-, rfl⟩ := databaseRecord_eq_ok.mp hr
    rfl
  refine ⟨r, hr, ?_⟩
  rw [← hname]
  have hdistinct := nodup_namespaceNames (Document.compile_eq_ok.mp h)
  exact find?_eq_some_of_nodup (namespaceNames_ofSchema hd ▸ hdistinct) hmem

/-- The record of a column is found by the names on the way to the column. -/
theorem ofSchema_lookup (h : d.compile = .ok s) (hd : ofSchema s = .ok descriptor)
    (hdatabase : database ∈ s.databases) (htable : table ∈ database.tables) (hc : c ∈ table.columns) :
    ∃ r, descriptor.database? database.kind.namespaceName = some r ∧
      r.table? table.name = some (tableRecord table) ∧
      (tableRecord table).column? c.name = some (columnRecord c) := by
  obtain ⟨-, hfoundT, hfoundC⟩ := Document.compile_lookup h hdatabase htable hc
  obtain ⟨r, hr, hfound⟩ := database?_ofSchema h hd hdatabase
  refine ⟨r, hfound, ?_, ?_⟩
  · rw [table?_databaseRecord hr, hfoundT, Option.map_some]
  · rw [column?_tableRecord, hfoundC, Option.map_some]

end Descriptor

end SchemaCompiler
