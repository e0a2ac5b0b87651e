import SchemaCompiler.Proofs.Schema.Compilation

/-! # Which documents compile

The conditions are stated over the declarations alone: names as regular languages, paths as what they
denote, references as chains of hops. None of them mentions the resolver or the order of its checks. -/

namespace SchemaCompiler

/-! ## Conditions on references -/

/-- Following references from a column, over targets that may not be null, leads to a column that is
declared directly. -/
inductive Leads (databases : List DatabaseDeclaration) :
    DatabaseDeclaration → ColumnDeclaration → Target → Prop where
  | last {home c path t} (hpath : c.path = some path) (ht : Denotes databases home path t)
      (hnullable : t.column.nullable = false) (hkind : t.column.kind ≠ "FK") :
      Leads databases home c t
  | next {home c path t last} (hpath : c.path = some path) (ht : Denotes databases home path t)
      (hnullable : t.column.nullable = false) (hkind : t.column.kind = "FK")
      (hleads : Leads databases t.database t.column last) : Leads databases home c last

namespace ColumnDeclaration

/-- A valid integer, serial or code column with its bounds. -/
def IsReferable (c : ColumnDeclaration) (bounds : Bounds) : Prop :=
  (c.kind = "integer" ∨ c.kind = "serial" ∨ c.kind = "code") ∧
    ∃ column, c.validate = .ok column ∧ column.bounds? = some bounds

/-- The delete action is absent, or known and only then to set null when the column may be null. -/
def ActionFits (c : ColumnDeclaration) : Prop :=
  ∀ text, c.onDelete = some text →
    ∃ action, OnDelete.ofText? text = some action ∧ (action = .setNull → c.nullable)

/-- A reference that is in order. -/
def ReferenceAccepted (databases : List DatabaseDeclaration) (home : DatabaseDeclaration)
    (c : ColumnDeclaration) : Prop :=
  ∃ t bounds, Leads databases home c t ∧ t.column.IsReferable bounds ∧ c.ActionFits ∧
    c.DefaultWithin bounds

/-- A column that is in order. -/
structure Accepted (databases : List DatabaseDeclaration) (home : DatabaseDeclaration)
    (c : ColumnDeclaration) : Prop where
  name : Identifier.column.Matches c.name
  declared : c.kind ≠ "FK" → ∃ column, c.validate = .ok column
  reference : c.kind = "FK" → c.ReferenceAccepted databases home

end ColumnDeclaration

/-! ## Conditions on tables, databases and documents -/

/-- An index that is in order. -/
structure IndexDeclaration.Accepted (t : TableDeclaration) (i : IndexDeclaration) : Prop where
  kind : i.kind = "primary" ∨ i.kind = "unique" ∨ i.kind = "index"
  nonempty : i.columns ≠ []
  known : ∀ name ∈ i.columns, ∃ c ∈ t.columns, c.name = name

/-- A table that is in order. -/
structure TableDeclaration.Accepted (databases : List DatabaseDeclaration)
    (home : DatabaseDeclaration) (t : TableDeclaration) : Prop where
  name : Identifier.table.Matches t.name
  kind : t.kind = "fixed"
  distinct : (t.columns.map (·.name)).Nodup
  columns : ∀ c ∈ t.columns, c.Accepted databases home
  indexes : ∀ i ∈ t.indexes, i.Accepted t
  primary : t.indexes.countP (·.kind = "primary") ≤ 1

/-- A database that is in order. -/
structure DatabaseDeclaration.Accepted (databases : List DatabaseDeclaration)
    (d : DatabaseDeclaration) : Prop where
  name : Identifier.database.Matches d.name
  kind : d.kind = "fixed" ∨ d.kind = "instance"
  distinct : (d.tables.map (·.name)).Nodup
  tables : ∀ t ∈ d.tables, t.Accepted databases d

/-- A document that is in order. -/
structure Document.Accepted (d : Document) : Prop where
  count : d.databases.length = 1 ∨ d.databases.length = 2
  names : (d.databases.map (·.name)).Nodup
  kinds : (d.databases.map (·.kind)).Nodup
  databases : ∀ database ∈ d.databases, database.Accepted d.databases

/-! ## References -/

namespace ColumnDeclaration

variable {databases : List DatabaseDeclaration} {home : DatabaseDeclaration} {c : ColumnDeclaration}
  {column : Column}

theorem isReferable_iff {bounds : Bounds} : c.IsReferable bounds ↔
    ∃ column size unsigned, c.validate = .ok column ∧
      column.type.referable? = some (size, unsigned, bounds) := by
  have hkind : ∀ column, c.validate = .ok column → column.type.kind.token = c.kind := by
    intro column hcolumn
    obtain ⟨kind, htoken, houtline⟩ := validate_outline hcolumn
    rw [houtline.type_kind]
    exact ColumnKind.ofToken?_eq_some.mp htoken
  constructor
  · rintro ⟨htoken, column, hcolumn, hbounds⟩
    have hreferable : column.type.kind = .integer ∨ column.type.kind = .serial ∨
        column.type.kind = .code := by
      rw [← hkind column hcolumn] at htoken
      generalize column.type.kind = kind at htoken
      revert htoken
      cases kind <;> decide
    obtain ⟨size, unsigned, h⟩ := ColumnType.exists_referable?_iff.mpr ⟨hreferable, hbounds⟩
    exact ⟨column, size, unsigned, hcolumn, h⟩
  · rintro ⟨column, size, unsigned, hcolumn, h⟩
    obtain ⟨hreferable, hbounds⟩ := ColumnType.exists_referable?_iff.mp ⟨size, unsigned, h⟩
    refine ⟨?_, column, hcolumn, hbounds⟩
    rw [← hkind column hcolumn]
    rcases hreferable with h | h | h <;> simp [h, ColumnKind.token]

theorem exists_deleteAction_iff : (∃ action, c.deleteAction = .ok action) ↔ c.ActionFits := by
  unfold deleteAction ActionFits
  cases honDelete : c.onDelete with
  | none => simp
  | some text =>
      cases haction : OnDelete.ofText? text with
      | none => simp [haction]
      | some action => cases action <;> cases hnullable : c.nullable <;> simp [haction]

/-- A suitable target is all that a reference in order needs. -/
theorem exists_refer {path : String} {t : Target} {resolved : Column} {size : IntegerSize}
    {unsigned : Bool} {bounds : Bounds} (hnullable : resolved.nullable = false)
    (hreferable : resolved.type.referable? = some (size, unsigned, bounds)) (haction : c.ActionFits)
    (hdefault : c.DefaultWithin bounds) : ∃ column, c.refer home path t resolved = .ok column := by
  obtain ⟨action, haction⟩ := exists_deleteAction_iff.mpr haction
  obtain ⟨declared, default, hdeclared, hdefault⟩ := exists_integerDefault_iff.mpr hdefault
  exact ⟨_, refer_eq_ok.mpr ⟨hnullable, size, unsigned, bounds, action, declared, default,
    hreferable, haction, hdeclared, hdefault, rfl⟩⟩

end ColumnDeclaration

namespace Leads

variable {databases : List DatabaseDeclaration} {home : DatabaseDeclaration} {c : ColumnDeclaration}
  {t u : Target}

/-- Where a path denotes one target at most, a column leads to one target at most. -/
theorem unique (hdenotes : ∀ {home path t u}, home ∈ databases → Denotes databases home path t →
      Denotes databases home path u → t = u)
    (ht : Leads databases home c t) (hu : Leads databases home c u) (hhome : home ∈ databases) :
    t = u := by
  induction ht with
  | last hpath ht _ hkind =>
      cases hu with
      | last hpath' hu _ _ =>
          cases hpath.symm.trans hpath'
          exact hdenotes hhome ht hu
      | next hpath' hu _ hkind' _ =>
          cases hpath.symm.trans hpath'
          cases hdenotes hhome ht hu
          exact absurd hkind' hkind
  | next hpath ht _ hkind _ ih =>
      cases hu with
      | last hpath' hu _ hkind' =>
          cases hpath.symm.trans hpath'
          cases hdenotes hhome ht hu
          exact absurd hkind hkind'
      | next hpath' hu _ _ hleads =>
          cases hpath.symm.trans hpath'
          cases hdenotes hhome ht hu
          exact ih hleads (ht.mem hhome).1

end Leads

section References

open ForeignKey

variable {databases : List DatabaseDeclaration} {home : DatabaseDeclaration} {c : ColumnDeclaration}
  {column : Column}

/-- A target that settles as a suitable column lies on a chain to a column declared directly. -/
theorem leads_of_settles {n : Nat} {t : Target} {path : String} {size : IntegerSize}
    {unsigned : Bool} {bounds : Bounds} (h : Settles databases n t column)
    (hhome : home ∈ databases) (hpath : c.path = some path)
    (ht : findTarget databases home path = .ok t) (hnullable : column.nullable = false)
    (hreferable : column.type.referable? = some (size, unsigned, bounds)) :
    ∃ last, Leads databases home c last ∧ last.column.IsReferable bounds := by
  have hdenotes := denotes_of_findTarget hhome ht
  have hnull : t.column.nullable = false := h.keeps.nullable ▸ hnullable
  induction h generalizing home c path with
  | declared hkind hvalidate =>
      exact ⟨_, .last hpath hdenotes hnull (ColumnDeclaration.isReference_eq_false_iff.mp hkind),
        ColumnDeclaration.isReferable_iff.mpr ⟨_, size, unsigned, hvalidate, hreferable⟩⟩
  | reference hkind hpath' hnext hsettles hrefer ih =>
      have hdatabase := (hdenotes.mem hhome).1
      obtain ⟨hresolved, -⟩ := ColumnDeclaration.refer_eq_ok.mp hrefer
      have hnextnull := hsettles.keeps.nullable ▸ hresolved
      obtain ⟨last, hleads, hlast⟩ := ih hdatabase hpath' hnext hresolved
        (ColumnDeclaration.refer_referable? hrefer ▸ hreferable)
        (denotes_of_findTarget hdatabase hnext) hnextnull
      exact ⟨last, .next hpath hdenotes hnull (ColumnDeclaration.isReference_iff.mp hkind) hleads,
        hlast⟩

theorem referenceAccepted_of_resolves (hhome : home ∈ databases)
    (h : Resolves databases home c column) : c.ReferenceAccepted databases home := by
  obtain ⟨path, t, n, resolved, hpath, ht, hsettles, hrefer⟩ := h
  obtain ⟨hnullable, size, unsigned, bounds, action, declared, default, hreferable, haction,
    hdeclared, hdefault, -⟩ := ColumnDeclaration.refer_eq_ok.mp hrefer
  obtain ⟨last, hleads, hlast⟩ := leads_of_settles hsettles hhome hpath ht hnullable hreferable
  exact ⟨last, bounds, hleads, hlast, ColumnDeclaration.exists_deleteAction_iff.mp ⟨action, haction⟩,
    ColumnDeclaration.exists_integerDefault_iff.mp ⟨declared, default, hdeclared, hdefault⟩⟩

/-- Where all references are in order, a chain of references resolves from its end to its start. -/
theorem resolves_of_leads {last : Target} {bounds : Bounds}
    (hfind : ∀ {home path t}, home ∈ databases → Denotes databases home path t →
      findTarget databases home path = .ok t)
    (haccepted : ∀ d ∈ databases, ∀ t ∈ d.tables, ∀ c ∈ t.columns, c.kind = "FK" →
      c.ReferenceAccepted databases d)
    (h : Leads databases home c last) (hhome : home ∈ databases)
    (hlast : last.column.IsReferable bounds) (haction : c.ActionFits)
    (hdefault : c.DefaultWithin bounds) :
    ∃ column size unsigned, Resolves databases home c column ∧
      column.type.referable? = some (size, unsigned, bounds) := by
  induction h with
  | @last home c path t hpath ht hnullable hkind =>
      obtain ⟨resolved, size, unsigned, hvalidate, hreferable⟩ :=
        ColumnDeclaration.isReferable_iff.mp hlast
      have hsettles : Settles databases 0 t resolved :=
        .declared (ColumnDeclaration.isReference_eq_false_iff.mpr hkind) hvalidate
      have hnull : resolved.nullable = false := hsettles.keeps.nullable.trans hnullable
      obtain ⟨column, hrefer⟩ := ColumnDeclaration.exists_refer hnull hreferable haction hdefault
      exact ⟨column, size, unsigned,
        ⟨path, t, 0, resolved, hpath, hfind hhome ht, hsettles, hrefer⟩,
        ColumnDeclaration.refer_referable? hrefer ▸ hreferable⟩
  | @next home c path t last hpath ht hnullable hkind hleads ih =>
      obtain ⟨hdatabase, htable, hcolumn⟩ := ht.mem hhome
      -- the reference in between is in order for the end of its own chain, which is this one
      obtain ⟨end', bounds', hleads', hend', haction', hdefault'⟩ :=
        haccepted _ hdatabase _ htable _ hcolumn hkind
      have hsame : end' = last := hleads'.unique
        (fun hhome ht hu => Except.ok.inj ((hfind hhome ht).symm.trans (hfind hhome hu)))
        hleads hdatabase
      subst hsame
      have hbounds : bounds' = bounds := by
        obtain ⟨-, _, hvalidate, hb⟩ := hlast
        obtain ⟨-, _, hvalidate', hb'⟩ := hend'
        cases hvalidate.symm.trans hvalidate'
        exact Option.some.inj (hb'.symm.trans hb)
      subst hbounds
      obtain ⟨resolved, size, unsigned, ⟨path', t', n, resolved', hpath', ht', hsettles', hrefer'⟩,
        hreferable⟩ := ih hdatabase hlast haction' hdefault'
      have hsettles : Settles databases (n + 1) t resolved :=
        .reference (ColumnDeclaration.isReference_iff.mpr hkind) hpath' ht' hsettles' hrefer'
      have hnull : resolved.nullable = false := hsettles.keeps.nullable.trans hnullable
      obtain ⟨column, hrefer⟩ := ColumnDeclaration.exists_refer hnull hreferable haction hdefault
      exact ⟨column, size, unsigned,
        ⟨path, t, n + 1, resolved, hpath, hfind hhome ht, hsettles, hrefer⟩,
        ColumnDeclaration.refer_referable? hrefer ▸ hreferable⟩

end References

/-! ## Names -/

namespace Document.Accepted

variable {d : Document}

theorem distinctNames (h : d.Accepted) : DistinctNames d.databases where
  ofDatabases := h.names
  ofTables := fun database hd => (h.databases database hd).distinct
  ofColumns := fun database hd t ht => ((h.databases database hd).tables t ht).distinct

theorem undottedNames (h : d.Accepted) : UndottedNames d.databases where
  ofDatabases := fun database hd =>
    Identifier.dot_notMem_of_accepts (Identifier.accepts_iff_matches.mpr (h.databases database hd).name)
  ofKinds := by
    intro database hd
    rcases (h.databases database hd).kind with hkind | hkind <;> rw [hkind] <;> decide
  ofTables := fun database hd t ht =>
    Identifier.dot_notMem_of_accepts
      (Identifier.accepts_iff_matches.mpr ((h.databases database hd).tables t ht).name)
  ofColumns := fun database hd t ht c hc =>
    Identifier.dot_notMem_of_accepts
      (Identifier.accepts_iff_matches.mpr (((h.databases database hd).tables t ht).columns c hc).name)

/-- In an accepted document the search finds whatever a path denotes. -/
theorem findTarget_of_denotes (h : d.Accepted) {home : DatabaseDeclaration} {path : String}
    {t : Target} (hhome : home ∈ d.databases) (ht : Denotes d.databases home path t) :
    findTarget d.databases home path = .ok t :=
  SchemaCompiler.findTarget_of_denotes h.distinctNames h.kinds h.undottedNames hhome ht

end Document.Accepted

/-! ## Columns -/

namespace ColumnDeclaration

variable {databases : List DatabaseDeclaration} {home : DatabaseDeclaration} {c : ColumnDeclaration}
  {column : Column}

theorem accepted_of_becomes (hhome : home ∈ databases) (hname : Identifier.column.accepts c.name)
    (h : c.Becomes databases home column) : c.Accepted databases home where
  name := Identifier.accepts_iff_matches.mp hname
  declared := by
    intro hkind
    rcases h with ⟨-, hvalidate⟩ | ⟨hreference, -⟩
    · exact ⟨column, hvalidate⟩
    · exact absurd (isReference_iff.mp hreference) hkind
  reference := by
    intro hkind
    rcases h with ⟨hdeclared, -⟩ | ⟨-, hresolve⟩
    · exact absurd hkind (isReference_eq_false_iff.mp hdeclared)
    · exact referenceAccepted_of_resolves hhome (ForeignKey.settles_of_resolveFrom hresolve)

/-- A column in order becomes a column of the schema. -/
theorem exists_becomes {d : Document} (hd : d.Accepted) (hhome : home ∈ d.databases)
    (h : c.Accepted d.databases home) : ∃ column, c.Becomes d.databases home column := by
  cases hreference : c.isReference with
  | false =>
      obtain ⟨column, hvalidate⟩ := h.declared (isReference_eq_false_iff.mp hreference)
      exact ⟨column, .inl ⟨hreference, hvalidate⟩⟩
  | true =>
      obtain ⟨last, bounds, hleads, hlast, haction, hdefault⟩ :=
        h.reference (isReference_iff.mp hreference)
      have haccepted : ∀ database ∈ d.databases, ∀ t ∈ database.tables, ∀ c ∈ t.columns,
          c.kind = "FK" → c.ReferenceAccepted d.databases database :=
        fun database hdatabase t ht c hc =>
          (((hd.databases database hdatabase).tables t ht).columns c hc).reference
      obtain ⟨column, -, -, hresolves, -⟩ := resolves_of_leads hd.findTarget_of_denotes haccepted
        hleads hhome hlast haction hdefault
      exact ⟨column, .inr ⟨hreference, (ForeignKey.resolve_eq_ok hd.names hhome).mpr hresolves⟩⟩

end ColumnDeclaration

/-! ## Indexes -/

namespace IndexDeclaration

variable {i : IndexDeclaration} {t : TableDeclaration} {columns : List Column}

/-- Whether an index compiles depends on the names of the columns alone. -/
theorem exists_compile_iff (hnames : t.columns.map (·.name) = columns.map (·.name)) :
    (∃ index, i.compile columns = .ok index) ↔ i.Accepted t := by
  have hmem : ∀ name, (∃ c ∈ columns, c.name = name) ↔ ∃ c ∈ t.columns, c.name = name := by
    intro name
    simpa only [List.mem_map] using iff_of_eq (congrArg (name ∈ ·) hnames.symm)
  simp only [compile_eq_ok, hmem]
  constructor
  · rintro ⟨index, hkind, -, hnonempty, hknown⟩
    refine ⟨?_, hnonempty, hknown⟩
    rw [← hkind]
    cases index.kind <;> simp [IndexKind.token]
  · intro h
    have hkind : ∃ kind : IndexKind, kind.token = i.kind := by
      rcases h.kind with hk | hk | hk
      · exact ⟨.primary, hk.symm⟩
      · exact ⟨.unique, hk.symm⟩
      · exact ⟨.index, hk.symm⟩
    obtain ⟨kind, hkind⟩ := hkind
    exact ⟨⟨kind, i.columns⟩, hkind, rfl, h.nonempty, h.known⟩

/-- Compiled indexes are primary where the declared ones are. -/
theorem countP_primary {is : List IndexDeclaration} {indexes : List Schema.Index}
    (h : List.Forall₂ (fun i index => i.compile columns = .ok index) is indexes) :
    indexes.countP (·.kind = .primary) = is.countP (·.kind = "primary") := by
  induction h with
  | nil => rfl
  | @cons i index is indexes hindex _ ih =>
      have hprimary : index.kind = .primary ↔ i.kind = "primary" := by
        rw [← (compile_eq_ok.mp hindex).1]
        cases index.kind <;> simp [IndexKind.token]
      simp only [List.countP_cons, ih, hprimary]

end IndexDeclaration

/-! ## Tables -/

namespace TableDeclaration

variable {home : DatabaseDeclaration} {t : TableDeclaration} {table : Schema.Table}

theorem accepted_of_becomes {databases : List DatabaseDeclaration} (hhome : home ∈ databases)
    (h : t.Becomes databases home table) : t.Accepted databases home where
  name := Identifier.accepts_iff_matches.mp h.accepted
  kind := h.supported
  distinct := h.distinct
  columns := by
    intro c hc
    obtain ⟨column, -, hname, hbecomes⟩ := exists_of_mem_left h.columns hc
    exact ColumnDeclaration.accepted_of_becomes hhome hname hbecomes
  indexes := by
    intro i hi
    obtain ⟨index, -, hindex⟩ := exists_of_mem_left h.indexes hi
    exact (IndexDeclaration.exists_compile_iff h.columnNames).mp ⟨index, hindex⟩
  primary := IndexDeclaration.countP_primary h.indexes ▸ h.primary

/-- A table in order becomes a table of the schema. -/
theorem exists_becomes {d : Document} (hd : d.Accepted) (hhome : home ∈ d.databases)
    (h : t.Accepted d.databases home) : ∃ table, t.Becomes d.databases home table := by
  have hcolumns : ∀ c ∈ t.columns, ∃ column, Identifier.column.accepts c.name ∧
      c.Becomes d.databases home column := by
    intro c hc
    obtain ⟨column, hbecomes⟩ := ColumnDeclaration.exists_becomes hd hhome (h.columns c hc)
    exact ⟨column, Identifier.accepts_iff_matches.mpr (h.columns c hc).name, hbecomes⟩
  obtain ⟨columns, hcolumns⟩ := exists_forall₂_iff.mpr hcolumns
  have hnames : t.columns.map (·.name) = columns.map (·.name) :=
    map_eq_map_of_forall₂ hcolumns fun _ _ hcolumn => hcolumn.2.keeps.name.symm
  have hindexes : ∀ i ∈ t.indexes, ∃ index, i.compile columns = .ok index :=
    fun i hi => (IndexDeclaration.exists_compile_iff hnames).mpr (h.indexes i hi)
  obtain ⟨indexes, hindexes⟩ := exists_forall₂_iff.mpr hindexes
  exact ⟨⟨t.name, columns, indexes⟩,
    { accepted := Identifier.accepts_iff_matches.mpr h.name
      supported := h.kind
      distinct := h.distinct
      name := rfl
      columns := hcolumns
      indexes := hindexes
      primary := IndexDeclaration.countP_primary hindexes ▸ h.primary }⟩

end TableDeclaration

/-! ## Databases and documents -/

namespace DatabaseDeclaration

variable {database : DatabaseDeclaration} {compiled : Schema.Database}

theorem accepted_of_becomes {databases : List DatabaseDeclaration} (hd : database ∈ databases)
    (hname : Identifier.database.accepts database.name) (h : database.Becomes databases compiled) :
    database.Accepted databases where
  name := Identifier.accepts_iff_matches.mp hname
  kind := by
    rw [← h.kind]
    cases compiled.kind <;> simp [DatabaseKind.token]
  distinct := h.distinct
  tables := by
    intro t ht
    obtain ⟨table, -, hbecomes⟩ := exists_of_mem_left h.tables ht
    exact TableDeclaration.accepted_of_becomes hd hbecomes

/-- A database in order becomes a database of the schema. -/
theorem exists_becomes {d : Document} (hd : d.Accepted) (hdatabase : database ∈ d.databases) :
    ∃ compiled, database.Becomes d.databases compiled := by
  have h := hd.databases database hdatabase
  obtain ⟨tables, htables⟩ := exists_forall₂_iff.mpr fun t ht =>
    TableDeclaration.exists_becomes hd hdatabase (h.tables t ht)
  have hkind : ∃ kind : DatabaseKind, kind.token = database.kind := by
    rcases h.kind with hk | hk
    · exact ⟨.core, hk.symm⟩
    · exact ⟨.tenant, hk.symm⟩
  obtain ⟨kind, hkind⟩ := hkind
  exact ⟨⟨database.name, kind, tables⟩, hkind, rfl, h.distinct, htables⟩

end DatabaseDeclaration

namespace Document

/-- A document compiles exactly when it is in order. -/
theorem compile_succeeds_iff_accepted (d : Document) :
    (∃ s, d.compile = .ok s) ↔ d.Accepted := by
  constructor
  · rintro ⟨s, h⟩
    have hbecomes := compile_eq_ok.mp h
    refine ⟨hbecomes.count, hbecomes.names, hbecomes.kinds, ?_⟩
    intro database hd
    obtain ⟨compiled, -, hcompiled⟩ := exists_of_mem_left hbecomes.databases hd
    exact DatabaseDeclaration.accepted_of_becomes hd (hbecomes.accepted database hd) hcompiled
  · intro h
    obtain ⟨databases, hdatabases⟩ := exists_forall₂_iff.mpr fun _ hd =>
      DatabaseDeclaration.exists_becomes h hd
    have haccepts : ∀ database ∈ d.databases, Identifier.database.accepts database.name :=
      fun database hd => Identifier.accepts_iff_matches.mpr (h.databases database hd).name
    exact ⟨⟨databases⟩, compile_eq_ok.mpr ⟨h.count, haccepts, h.names, h.kinds, hdatabases⟩⟩

end Document

end SchemaCompiler
