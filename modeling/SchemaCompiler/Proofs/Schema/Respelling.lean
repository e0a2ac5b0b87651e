import SchemaCompiler.Proofs.Artifact.Columns
import SchemaCompiler.Proofs.Schema.Order

/-! # References spelled out

A descriptor shows where a reference points as a path of three names. Whatever path was declared instead,
the one that is shown leads to the same column from every database, and a document whose references are all
spelled in this way is the same document. -/

namespace SchemaCompiler

/-! ## Spelling references out -/

/-- The declaration whose path is the one that the descriptor of a column shows. -/
def ColumnDeclaration.spell (c : ColumnDeclaration) (column : Column) : ColumnDeclaration :=
  { c with path := column.foreignKey.map Descriptor.referencePath }

/-- The column of a database with its reference spelled out. -/
def ColumnDeclaration.respell (databases : List DatabaseDeclaration) (home : DatabaseDeclaration)
    (c : ColumnDeclaration) : ColumnDeclaration :=
  match c.compile databases home with
  | .ok column => if c.isReference then c.spell column else c
  | .error _ => c

def TableDeclaration.respell (databases : List DatabaseDeclaration) (home : DatabaseDeclaration)
    (t : TableDeclaration) : TableDeclaration :=
  { t with columns := t.columns.map (·.respell databases home) }

def DatabaseDeclaration.respell (databases : List DatabaseDeclaration) (d : DatabaseDeclaration) :
    DatabaseDeclaration :=
  { d with tables := d.tables.map (·.respell databases d) }

def DatabaseDeclaration.respellAll (databases : List DatabaseDeclaration) :
    List DatabaseDeclaration :=
  databases.map (·.respell databases)

/-- The document with all references spelled out. -/
def Document.respell (d : Document) : Document :=
  ⟨DatabaseDeclaration.respellAll d.databases⟩

/-- What a descriptor shows of a reference in `home`: a path of three names that leads to the target of
the declared path, wherever it is written. -/
structure ShowsTarget (databases : List DatabaseDeclaration) (home : DatabaseDeclaration)
    (c : ColumnDeclaration) (column : Column) (fk : ForeignKey) : Prop where
  shown : (Descriptor.columnRecord column).field? "references" =
    some (Descriptor.string (Descriptor.referencePath fk))
  segments : Text.dotted (Descriptor.referencePath fk) = [fk.database, fk.table, fk.column]
  target : ∃ path t, c.path = some path ∧ findTarget databases home path = .ok t ∧
    ∀ other ∈ databases, findTarget databases other (Descriptor.referencePath fk) = .ok t

/-! ## What is kept -/

variable {databases : List DatabaseDeclaration} {home : DatabaseDeclaration}

namespace ColumnDeclaration

variable {c : ColumnDeclaration} {column : Column}

/-- Only the path of a column is spelled anew. -/
theorem exists_respell_eq (databases : List DatabaseDeclaration) (home : DatabaseDeclaration)
    (c : ColumnDeclaration) : ∃ path, c.respell databases home = { c with path := path } := by
  unfold respell
  split
  · split
    · exact ⟨_, rfl⟩
    · exact ⟨c.path, rfl⟩
  · exact ⟨c.path, rfl⟩

@[simp] theorem respell_name : (c.respell databases home).name = c.name := by
  obtain ⟨path, h⟩ := exists_respell_eq databases home c
  rw [h]

@[simp] theorem respell_isReference :
    (c.respell databases home).isReference = c.isReference := by
  obtain ⟨path, h⟩ := exists_respell_eq databases home c
  rw [h]
  rfl

theorem respell_of_declared (h : c.isReference = false) : c.respell databases home = c := by
  unfold respell
  simp only [h]
  split <;> rfl

theorem respell_of_reference (h : c.isReference) (hname : Identifier.column.accepts c.name)
    (hresolve : ForeignKey.resolve databases home c = .ok column) :
    c.respell databases home = c.spell column := by
  have hcompile : c.compile databases home = .ok column := compile_eq_ok.mpr ⟨hname, .inr ⟨h, hresolve⟩⟩
  simp only [respell, hcompile, h, if_true]

end ColumnDeclaration

/-! ## Targets -/

namespace Target

variable {t : Target}

/-- The same target where references are spelled out. -/
def respell (databases : List DatabaseDeclaration) (t : Target) : Target :=
  ⟨t.database.respell databases, t.table.respell databases t.database,
    t.column.respell databases t.database⟩

theorem find_respell {table column : String} (h : find home table column = .ok t) :
    find (home.respell databases) table column = .ok (t.respell databases) := by
  obtain ⟨rfl, htable, hcolumn⟩ := find_eq_ok.mp h
  refine find_eq_ok.mpr ⟨rfl, ?_, ?_⟩
  · rw [DatabaseDeclaration.table?, DatabaseDeclaration.respell, List.find?_map]
    exact congrArg (Option.map _) htable
  · rw [TableDeclaration.column?, respell, TableDeclaration.respell, List.find?_map]
    simp only [Function.comp_def, ColumnDeclaration.respell_name]
    exact congrArg (Option.map _) hcolumn

end Target

theorem findDatabase_respell {segment : String} {d : DatabaseDeclaration}
    (h : findDatabase databases segment = .ok d) :
    findDatabase (DatabaseDeclaration.respellAll databases) segment =
      .ok (d.respell databases) := by
  have hname : (DatabaseDeclaration.respellAll databases).find? (·.name = segment) =
      (databases.find? (·.name = segment)).map (·.respell databases) := List.find?_map ..
  have hkind : (DatabaseDeclaration.respellAll databases).find? (·.kind = segment) =
      (databases.find? (·.kind = segment)).map (·.respell databases) := List.find?_map ..
  unfold findDatabase at h ⊢
  rw [hname, hkind]
  split at h
  · next hfind =>
      cases h
      rw [hfind]
      rfl
  · next hfind =>
      split at h
      · next hfind' =>
          cases h
          rw [hfind, hfind']
          rfl
      · cases h

theorem findTarget_respell {path : String} {t : Target}
    (h : findTarget databases home path = .ok t) :
    findTarget (DatabaseDeclaration.respellAll databases) (home.respell databases) path =
      .ok (t.respell databases) := by
  rw [findTarget_eq_ok] at h ⊢
  obtain ⟨table, column, ⟨hpath, hfind⟩ | ⟨segment, d, hpath, hd, hfind⟩⟩ := h
  · exact ⟨table, column, .inl ⟨hpath, Target.find_respell hfind⟩⟩
  · exact ⟨table, column, .inr ⟨segment, d.respell databases, hpath, findDatabase_respell hd,
      Target.find_respell hfind⟩⟩

/-! ## Paths that are shown -/

theorem Descriptor.referencePath_eq (fk : ForeignKey) :
    referencePath fk = ".".intercalate [fk.database, fk.table, fk.column] :=
  rfl

theorem Target.Declared.findTarget_referencePath {t : Target} (ht : t.Declared databases)
    (hnames : DistinctNames databases) (hkinds : (databases.map (·.kind)).Nodup)
    (hplain : UndottedNames databases) {fk : ForeignKey} (hdatabase : fk.database = t.database.name)
    (htable : fk.table = t.table.name) (hcolumn : fk.column = t.column.name)
    (hhome : home ∈ databases) :
    findTarget databases home (Descriptor.referencePath fk) = .ok t := by
  rw [Descriptor.referencePath_eq, hdatabase, htable, hcolumn]
  exact findTarget_of_denotes hnames hkinds hplain hhome
    (.named ht.database ht.table_mem ht.column_mem)

/-! ## Resolution -/

namespace ColumnDeclaration

variable {c : ColumnDeclaration} {column : Column}

theorem respell_deleteAction : (c.respell databases home).deleteAction = c.deleteAction := by
  obtain ⟨_, h⟩ := exists_respell_eq databases home c
  simp only [deleteAction, h]

theorem respell_scalarDefault : (c.respell databases home).scalarDefault = c.scalarDefault := by
  obtain ⟨_, h⟩ := exists_respell_eq databases home c
  simp only [scalarDefault, declaredDefault?, h]

theorem respell_nullable : (c.respell databases home).nullable = c.nullable := by
  obtain ⟨_, h⟩ := exists_respell_eq databases home c
  rw [h]

/-- Spelling references out changes neither what a column takes over from its target nor what it adds. -/
theorem refer_respell {path path' : String} {t : Target} {resolved : Column} :
    (c.respell databases home).refer (home.respell databases) path' (t.respell databases) resolved =
      .ok column ↔ c.refer home path t resolved = .ok column := by
  simp only [refer_eq_ok, respell_deleteAction, respell_scalarDefault, respell_nullable, Target.respell,
    respell_name]
  rfl

end ColumnDeclaration

/-- What spelling out needs of a document: names that are distinct and hold no dot. -/
structure Spellable (databases : List DatabaseDeclaration) : Prop where
  names : DistinctNames databases
  kinds : (databases.map (·.kind)).Nodup
  plain : UndottedNames databases
  accepted : ∀ d ∈ databases, ∀ t ∈ d.tables, ∀ c ∈ t.columns, Identifier.column.accepts c.name

namespace ForeignKey

variable {c : ColumnDeclaration} {column resolved : Column}

/-- A reference that resolves is spelled out as a path to its target. -/
theorem respell_path (h : Spellable databases) (hhome : home ∈ databases) (hkind : c.isReference)
    (hname : Identifier.column.accepts c.name) {path : String} {t : Target}
    (ht : findTarget databases home path = .ok t) (hrefer : c.refer home path t resolved = .ok column)
    (hresolve : resolve databases home c = .ok column) : ∃ path',
      (c.respell databases home).path = some path' ∧ findTarget databases home path' = .ok t := by
  obtain ⟨-, _, _, _, _, _, _, -, -, -, -, rfl⟩ := ColumnDeclaration.refer_eq_ok.mp hrefer
  rw [ColumnDeclaration.respell_of_reference hkind hname hresolve]
  exact ⟨_, rfl, (findTarget_declared hhome ht).findTarget_referencePath h.names h.kinds h.plain
    rfl rfl rfl hhome⟩

theorem Settles.respell (h : Spellable databases) {n : Nat} {t : Target}
    (hsettles : Settles databases n t column) (ht : t.Declared databases) :
    Settles (DatabaseDeclaration.respellAll databases) n (t.respell databases) column := by
  induction hsettles with
  | @declared t column hkind hvalidate =>
      refine .declared ?_ ?_
      · exact ColumnDeclaration.respell_isReference.trans hkind
      · rw [Target.respell, ColumnDeclaration.respell_of_declared hkind]
        exact hvalidate
  | @reference n t path next resolved column hkind hpath hnext hsettles hrefer ih =>
      have hresolve : resolve databases t.database t.column = .ok column :=
        (resolve_eq_ok h.names.ofDatabases ht.database).mpr
          ⟨path, next, n, resolved, hpath, hnext, hsettles, hrefer⟩
      have hname := h.accepted _ ht.database _ ht.table_mem _ ht.column_mem
      obtain ⟨path', hpath', hnext'⟩ := respell_path h ht.database hkind hname hnext hrefer hresolve
      refine .reference ?_ hpath' (findTarget_respell hnext')
        (ih (findTarget_declared ht.database hnext)) (ColumnDeclaration.refer_respell.mpr hrefer)
      exact ColumnDeclaration.respell_isReference.trans hkind

end ForeignKey

theorem DatabaseDeclaration.map_name_respellAll :
    (respellAll databases).map (·.name) = databases.map (·.name) :=
  List.map_map ..

theorem DatabaseDeclaration.map_kind_respellAll :
    (respellAll databases).map (·.kind) = databases.map (·.kind) :=
  List.map_map ..

theorem ColumnDeclaration.Becomes.respell {c : ColumnDeclaration} {column : Column}
    (h : c.Becomes databases home column) (hspellable : Spellable databases) (hhome : home ∈ databases)
    (hname : Identifier.column.accepts c.name) :
    (c.respell databases home).Becomes (DatabaseDeclaration.respellAll databases)
      (home.respell databases) column := by
  rcases h with ⟨hkind, hvalidate⟩ | ⟨hkind, hresolve⟩
  · rw [ColumnDeclaration.respell_of_declared hkind]
    exact .inl ⟨hkind, hvalidate⟩
  · have hnames : ((DatabaseDeclaration.respellAll databases).map (·.name)).Nodup := by
      rw [DatabaseDeclaration.map_name_respellAll]
      exact hspellable.names.ofDatabases
    obtain ⟨path, t, n, resolved, hpath, ht, hsettles, hrefer⟩ :=
      (ForeignKey.resolve_eq_ok hspellable.names.ofDatabases hhome).mp hresolve
    obtain ⟨path', hpath', ht'⟩ :=
      ForeignKey.respell_path hspellable hhome hkind hname ht hrefer hresolve
    refine .inr ⟨ColumnDeclaration.respell_isReference.trans hkind, ?_⟩
    exact (ForeignKey.resolve_eq_ok hnames (List.mem_map_of_mem hhome)).mpr ⟨path', _, n, resolved,
      hpath', findTarget_respell ht', hsettles.respell hspellable (findTarget_declared hhome ht),
      ColumnDeclaration.refer_respell.mpr hrefer⟩

/-! ## Tables, databases and documents -/

theorem TableDeclaration.Becomes.respell {t : TableDeclaration} {table : Schema.Table}
    (h : t.Becomes databases home table) (hspellable : Spellable databases)
    (hhome : home ∈ databases) :
    (t.respell databases home).Becomes (DatabaseDeclaration.respellAll databases)
      (home.respell databases) table where
  accepted := h.accepted
  supported := h.supported
  distinct := by
    have hnames : (t.respell databases home).columns.map (·.name) = t.columns.map (·.name) := by
      simp only [TableDeclaration.respell, List.map_map, Function.comp_def,
        ColumnDeclaration.respell_name]
    rw [hnames]
    exact h.distinct
  name := h.name
  columns := by
    rw [TableDeclaration.respell, List.forall₂_map_left_iff]
    refine h.columns.imp fun c column ⟨hname, hbecomes⟩ => ?_
    rw [ColumnDeclaration.respell_name]
    exact ⟨hname, hbecomes.respell hspellable hhome hname⟩
  indexes := h.indexes
  primary := h.primary

theorem DatabaseDeclaration.Becomes.respell {d : DatabaseDeclaration} {database : Schema.Database}
    (h : d.Becomes databases database) (hspellable : Spellable databases) (hd : d ∈ databases) :
    (d.respell databases).Becomes (respellAll databases) database where
  kind := h.kind
  name := h.name
  distinct := by
    have hnames : (d.respell databases).tables.map (·.name) = d.tables.map (·.name) :=
      List.map_map ..
    rw [hnames]
    exact h.distinct
  tables := by
    rw [DatabaseDeclaration.respell, List.forall₂_map_left_iff]
    exact h.tables.imp fun t table htable => htable.respell hspellable hd

namespace Document

variable {d : Document} {s : Schema}

theorem Becomes.spellable (h : d.Becomes s) : Spellable d.databases where
  names := h.documentAccepted.distinctNames
  kinds := h.kinds
  plain := h.documentAccepted.undottedNames
  accepted := by
    intro database hd t ht c hc
    have hc' := ((h.documentAccepted.databases database hd).tables t ht).columns c hc
    exact Identifier.accepts_iff_matches.mpr hc'.name

theorem Becomes.respell (h : d.Becomes s) : d.respell.Becomes s where
  count := by
    rw [Document.respell, DatabaseDeclaration.respellAll, List.length_map]
    exact h.count
  accepted := by
    intro database hd
    obtain ⟨declared, hdeclared, rfl⟩ := List.mem_map.mp hd
    exact h.accepted declared hdeclared
  names := by
    rw [Document.respell, DatabaseDeclaration.map_name_respellAll]
    exact h.names
  kinds := by
    rw [Document.respell, DatabaseDeclaration.map_kind_respellAll]
    exact h.kinds
  databases := by
    rw [Document.respell, DatabaseDeclaration.respellAll, List.forall₂_map_left_iff]
    have hmem : List.Forall₂ (fun database compiled => database ∈ d.databases ∧
        database.Becomes d.databases compiled) d.databases s.databases :=
      (List.forall₂_and_left _ _).mpr ⟨fun _ hd => hd, h.databases⟩
    exact hmem.imp fun database compiled ⟨hd, hcompiled⟩ => hcompiled.respell h.spellable hd

/-- A reference of a compiled document is shown as a path that leads to its target from everywhere. -/
theorem Becomes.showsTarget (h : d.Becomes s) {home : DatabaseDeclaration} (hhome : home ∈ d.databases)
    {c : ColumnDeclaration} {column : Column} {fk : ForeignKey}
    (hcolumn : c.compile d.databases home = .ok column) (hfk : column.foreignKey = some fk) :
    ShowsTarget d.databases home c column fk := by
  obtain ⟨-, ⟨-, hvalidate⟩ | ⟨-, hresolve⟩⟩ := ColumnDeclaration.compile_eq_ok.mp hcolumn
  · obtain ⟨_, -, houtline⟩ := ColumnDeclaration.validate_outline hvalidate
    simp [houtline.foreignKey] at hfk
  · obtain ⟨path, t, n, resolved, hpath, ht, -, hrefer⟩ :=
      (ForeignKey.resolve_eq_ok h.names hhome).mp hresolve
    obtain ⟨-, _, _, _, _, _, _, -, -, -, -, rfl⟩ := ColumnDeclaration.refer_eq_ok.mp hrefer
    cases hfk
    have hdeclared := findTarget_declared hhome ht
    have hplain := h.spellable.plain
    refine ⟨Descriptor.field?_references _, ?_, path, t, hpath, ht, fun other hother => ?_⟩
    · rw [Descriptor.referencePath_eq]
      apply Text.dotted_intercalate (by simp)
      simpa using ⟨hplain.ofDatabases _ hdeclared.database,
        hplain.ofTables _ hdeclared.database _ hdeclared.table_mem,
        hplain.ofColumns _ hdeclared.database _ hdeclared.table_mem _ hdeclared.column_mem⟩
    · exact hdeclared.findTarget_referencePath h.spellable.names h.kinds hplain rfl rfl rfl hother

/-- The spellings of a reference are interchangeable: with all references spelled as descriptors show
them a document compiles to the same schema, and every such spelling leads to the target of the declared
one. -/
theorem compile_respell (h : d.compile = .ok s) : d.respell.compile = .ok s ∧
    ∀ home ∈ d.databases, ∀ t ∈ home.tables, ∀ c ∈ t.columns, ∀ column fk,
      c.compile d.databases home = .ok column → column.foreignKey = some fk →
        ShowsTarget d.databases home c column fk := by
  have hbecomes := compile_eq_ok.mp h
  refine ⟨compile_eq_ok.mpr hbecomes.respell, ?_⟩
  intro home hhome t ht c hc column fk hcolumn hfk
  exact hbecomes.showsTarget hhome hcolumn hfk

/-! ## Databases named like types -/

/-- References by name, by type and in the same database, where the first database is named like the type
of the second one. -/
def misnamed : Document where
  databases := [
    { name := "instance", kind := "fixed", tables := [{ name := "users", columns := [
        { name := "id", kind := "serial", size := some "INT" },
        { name := "chief", kind := "FK", path := some "users.id" }] }] },
    { name := "shop", kind := "instance", tables := [{ name := "orders", columns := [
        { name := "owner", kind := "FK", path := some "instance.users.id" },
        { name := "clerk", kind := "FK", path := some "fixed.users.chief" },
        { name := "payer", kind := "FK", path := some "orders.clerk" }] }] }]

theorem compile_respell_misnamed : ∃ s, misnamed.compile = .ok s ∧ misnamed.respell.compile = .ok s ∧
    misnamed.respell.databases.map (fun d => d.tables.map fun t => t.columns.map (·.path)) =
      [[[none, some "instance.users.id"]], [[some "instance.users.id", some "instance.users.chief",
        some "shop.orders.clerk"]]] := by
  have h : ∃ s, misnamed.compile = .ok s := ⟨_, by cbv⟩
  obtain ⟨s, h⟩ := h
  exact ⟨s, h, (compile_respell h).1, by cbv⟩

end Document

end SchemaCompiler
