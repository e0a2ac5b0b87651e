import SchemaCompiler.Proofs.ForeignKey.Blame
import SchemaCompiler.Proofs.Schema.Acceptance
import SchemaCompiler.Proofs.Schema.References

/-! # Where a failed compilation is placed

A compilation stops at the first fault, and says where. The place is that of a declaration of the
document, and this declaration is at fault by itself, whatever was being compiled when the fault was
found. -/

namespace SchemaCompiler

/-! ## Declarations at fault -/

/-- A column whose name is repeated in its table, or which does not compile by itself. -/
def ColumnDeclaration.AtFault (databases : List DatabaseDeclaration) (home : DatabaseDeclaration)
    (t : TableDeclaration) (c : ColumnDeclaration) : Prop :=
  1 < t.columns.countP (·.name = c.name) ∨ ∃ e, c.compile databases home = .error e

/-- A table whose name is repeated in its database, or which is not in order apart from its columns. -/
inductive TableDeclaration.AtFault (home : DatabaseDeclaration) (t : TableDeclaration) : Prop where
  | repeated (h : 1 < home.tables.countP (·.name = t.name))
  | name (h : ¬Identifier.table.Matches t.name)
  | kind (h : t.kind ≠ "fixed")
  | index {i} (hi : i ∈ t.indexes) (h : ¬i.Accepted t)
  | primary (h : 1 < t.indexes.countP (·.kind = "primary"))

/-- A database whose name or type is not valid, or repeated in the document. -/
inductive DatabaseDeclaration.AtFault (databases : List DatabaseDeclaration)
    (d : DatabaseDeclaration) : Prop where
  | name (h : ¬Identifier.database.Matches d.name)
  | kind (h : d.kind ≠ "fixed" ∧ d.kind ≠ "instance")
  | repeatedName (h : 1 < databases.countP (·.name = d.name))
  | repeatedKind (h : 1 < databases.countP (·.kind = d.kind))

/-- A place that belongs to a declaration at fault. -/
inductive Location.AtFault (databases : List DatabaseDeclaration) : Location → Prop where
  | database {d} (hd : d ∈ databases) (h : d.AtFault databases) :
      AtFault databases (.ofDatabase d.name)
  | table {d t} (hd : d ∈ databases) (ht : t ∈ d.tables) (h : t.AtFault d) :
      AtFault databases (.ofTable d.name t.name)
  | column {d t c} (hd : d ∈ databases) (ht : t ∈ d.tables) (hc : c ∈ t.columns)
      (h : c.AtFault databases d t) : AtFault databases (.ofColumn d.name t.name c.name)

variable {databases : List DatabaseDeclaration} {home : DatabaseDeclaration} {e : Failure}

/-! ## Columns -/

theorem checkName_eq_error {kind : Identifier} {name : String} {f : Fault}
    (h : checkName kind name = .error f) : ¬kind.Matches name := by
  intro hmatches
  cases h.symm.trans (checkName_eq_ok (u := ()).mpr (Identifier.accepts_iff_matches.mpr hmatches))

/-- A target that does not settle does not compile either. -/
theorem ForeignKey.Stuck.compile_fails {t : Target} (h : Stuck databases t) :
    ∃ e, t.column.compile databases t.database = .error e := by
  cases hcompile : t.column.compile databases t.database with
  | error e => exact ⟨e, rfl⟩
  | ok column =>
      obtain ⟨n, hsettles⟩ := settles_of_becomes (ColumnDeclaration.compile_eq_ok.mp hcompile).2
      exact absurd hsettles (h n column)

/-- A failure that a column does not leave to its table belongs to the target of a reference. -/
theorem ColumnDeclaration.compile_blames (hnames : (databases.map (·.name)).Nodup)
    (hhome : home ∈ databases) {c : ColumnDeclaration} (h : c.compile databases home = .error e) :
    e.location = none ∨ ∃ place, e.location = some place ∧ place.AtFault databases := by
  have hunplaced : ∀ {α : Type} {r : Except Fault α}, Failure.unplaced r = .error e →
      e.location = none := by
    intro α r hr
    obtain ⟨f, -, rfl⟩ := Failure.unplaced_eq_error.mp hr
    rfl
  rcases bind_eq_error.mp h with hname | ⟨_, -, h⟩
  · exact .inl (hunplaced hname)
  · rcases bind_eq_error.mp h with hkind | ⟨kind, -, h⟩
    · exact .inl (hunplaced hkind)
    · cases kind with
      | foreignKey =>
          rcases ForeignKey.resolve_blames hnames hhome h with hnone | ⟨t, ht, hstuck, hlocation⟩
          · exact .inl hnone
          · exact .inr ⟨_, hlocation,
              .column ht.database ht.table_mem ht.column_mem (.inr hstuck.compile_fails)⟩
      | integer | serial | timestamp | string | binary | boolean | code => exact .inl (hunplaced h)

/-! ## Tables -/

namespace TableDeclaration

variable {t : TableDeclaration}

theorem compileColumns_blames (hnames : (databases.map (·.name)).Nodup) (hhome : home ∈ databases)
    (ht : t ∈ home.tables) (h : t.compileColumns databases home = .error e) :
    ∃ place, e.location = some place ∧ place.AtFault databases := by
  rcases compileDistinct_eq_error h with ⟨c, hc, rfl, hseen | hrepeated⟩ | ⟨c, hc, h⟩
  · simp at hseen
  · exact ⟨_, rfl, .column hhome ht hc (.inl hrepeated)⟩
  · obtain ⟨inner, hcompile, rfl⟩ := Failure.within_eq_error.mp h
    rcases ColumnDeclaration.compile_blames hnames hhome hcompile with hnone | ⟨place, hplace, hblames⟩
    · exact ⟨_, by rw [Located.location_locate, hnone]; rfl,
        .column hhome ht hc (.inr ⟨inner, hcompile⟩)⟩
    · exact ⟨place, by simp [hplace], hblames⟩

/-- A failure that a table does not leave to its database belongs to a column. -/
theorem compile_blames (hnames : (databases.map (·.name)).Nodup) (hhome : home ∈ databases)
    (ht : t ∈ home.tables) (h : t.compile databases home = .error e) :
    (e.location = none ∧ t.AtFault home) ∨
      ∃ place, e.location = some place ∧ place.AtFault databases := by
  rcases bind_eq_error.mp h with hname | ⟨_, -, h⟩
  · obtain ⟨f, hf, rfl⟩ := Failure.unplaced_eq_error.mp hname
    exact .inl ⟨rfl, .name (checkName_eq_error hf)⟩
  · rcases guard_eq_error.mp h with ⟨hkind, rfl⟩ | ⟨-, h⟩
    · exact .inl ⟨rfl, .kind hkind⟩
    · rcases bind_eq_error.mp h with hcolumns | ⟨columns, hcolumns, h⟩
      · exact .inr (compileColumns_blames hnames hhome ht hcolumns)
      · obtain ⟨-, hcolumns⟩ := compileColumns_eq_ok.mp hcolumns
        have hsame : t.columns.map (·.name) = columns.map (·.name) :=
          map_eq_map_of_forall₂ hcolumns fun _ _ hcolumn => hcolumn.2.keeps.name.symm
        rcases bind_eq_error.mp h with hindexes | ⟨indexes, hindexes, h⟩
        · obtain ⟨f, hf, rfl⟩ := Failure.unplaced_eq_error.mp hindexes
          obtain ⟨i, hi, hcompile⟩ := exists_of_mapM_eq_error hf
          refine .inl ⟨rfl, .index hi ?_⟩
          intro haccepted
          obtain ⟨index, hindex⟩ := (IndexDeclaration.exists_compile_iff hsame).mpr haccepted
          cases hcompile.symm.trans hindex
        · rcases guard_eq_error.mp h with ⟨hprimary, rfl⟩ | ⟨-, h⟩
          · rw [Failure.unplaced_eq_ok, mapM_eq_ok] at hindexes
            rw [repeatsPrimary, decide_eq_true_eq, IndexDeclaration.countP_primary hindexes] at hprimary
            exact .inl ⟨rfl, .primary hprimary⟩
          · simp at h

end TableDeclaration

/-! ## Databases -/

namespace DatabaseDeclaration

variable {d : DatabaseDeclaration}

theorem knownKind_eq_error {f : Fault} (h : d.knownKind = .error f) :
    d.kind ≠ "fixed" ∧ d.kind ≠ "instance" := by
  constructor
  · intro hkind
    have hcore : d.knownKind = .ok .core := knownKind_eq_ok.mpr hkind.symm
    cases h.symm.trans hcore
  · intro hkind
    have htenant : d.knownKind = .ok .tenant := knownKind_eq_ok.mpr hkind.symm
    cases h.symm.trans htenant

theorem one_lt_countP {p : DatabaseDeclaration → Bool} {before rest : List DatabaseDeclaration}
    (h : before.any p) (hd : p d) : 1 < (before ++ d :: rest).countP p := by
  have hbefore : 0 < before.countP p := List.countP_pos_iff.mpr (List.any_eq_true.mp h)
  have hrest : 0 < (d :: rest).countP p := List.countP_pos_iff.mpr ⟨d, by simp, hd⟩
  rw [List.countP_append]
  omega

/-- A database that fails its check is at fault where it stands. -/
theorem atFault_of_check {before rest : List DatabaseDeclaration} {f : Fault}
    (h : d.check before = .error f) : d.AtFault (before ++ d :: rest) := by
  rcases bind_eq_error.mp h with hname | ⟨_, -, h⟩
  · exact .name (checkName_eq_error hname)
  · rcases bind_eq_error.mp h with hkind | ⟨kind, -, h⟩
    · exact .kind (knownKind_eq_error hkind)
    · rcases guard_eq_error.mp h with ⟨hrepeated, -⟩ | ⟨-, h⟩
      · exact .repeatedName (one_lt_countP hrepeated (by simp))
      · rcases lastGuard_eq_error.mp h with ⟨hrepeated, -⟩ | ⟨-, h⟩
        · exact .repeatedKind (one_lt_countP hrepeated (by simp))
        · simp at h

theorem checkAll_blames {before rest : List DatabaseDeclaration}
    (h : checkAll before rest = .error e) :
    ∃ place, e.location = some place ∧ place.AtFault (before ++ rest) := by
  induction rest generalizing before with
  | nil => cases h
  | cons d rest ih =>
      rcases bind_eq_error.mp h with hfirst | ⟨_, -, h⟩
      · obtain ⟨inner, hinner, rfl⟩ := Failure.within_eq_error.mp hfirst
        obtain ⟨f, hcheck, rfl⟩ := Failure.unplaced_eq_error.mp hinner
        exact ⟨_, rfl, .database (by simp) (atFault_of_check hcheck)⟩
      · simpa using ih h

/-- Behind the check of the databases all failures belong to tables or columns. -/
theorem compile_blames (hnames : (databases.map (·.name)).Nodup) (hd : d ∈ databases)
    (hkind : ∃ kind : DatabaseKind, kind.token = d.kind) (h : d.compile databases = .error e) :
    ∃ place, e.location = some place ∧ place.AtFault databases := by
  rcases bind_eq_error.mp h with h | ⟨_, -, h⟩
  · obtain ⟨kind, hkind⟩ := hkind
    obtain ⟨f, hf, -⟩ := Failure.unplaced_eq_error.mp h
    cases hf.symm.trans (knownKind_eq_ok.mpr hkind)
  · rcases bind_eq_error.mp h with h | ⟨tables, -, h⟩
    · rcases compileDistinct_eq_error h with ⟨t, ht, rfl, hseen | hrepeated⟩ | ⟨t, ht, h⟩
      · simp at hseen
      · exact ⟨_, rfl, .table hd ht (.repeated hrepeated)⟩
      · obtain ⟨inner, hcompile, rfl⟩ := Failure.within_eq_error.mp h
        rcases TableDeclaration.compile_blames hnames hd ht hcompile with
          ⟨hnone, hfault⟩ | ⟨place, hplace, hblames⟩
        · exact ⟨_, by rw [Located.location_locate, hnone]; rfl, .table hd ht hfault⟩
        · exact ⟨place, by simp [hplace], hblames⟩
    · simp at h

end DatabaseDeclaration

/-! ## Documents -/

/-- A failed compilation of one or two databases is placed at a declaration that is at fault. -/
theorem Document.compile_error_atFault (d : Document)
    (hcount : d.databases.length = 1 ∨ d.databases.length = 2) (h : d.compile = .error e) :
    ∃ place, e.location = some place ∧ place.AtFault d.databases := by
  rcases guard_eq_error.mp h with ⟨hrefused, -⟩ | ⟨-, h⟩
  · rw [Bool.not_eq_true', ← Bool.not_eq_true, admitsCount_iff] at hrefused
    exact absurd hcount hrefused
  · rcases bind_eq_error.mp h with h | ⟨_, hchecked, h⟩
    · simpa using DatabaseDeclaration.checkAll_blames h
    · obtain ⟨hvalid, ⟨hnames, -⟩, -⟩ := DatabaseDeclaration.checkAll_eq_ok.mp hchecked
      rcases bind_eq_error.mp h with h | ⟨databases, -, h⟩
      · obtain ⟨database, hmem, hcompile⟩ := exists_of_mapM_eq_error h
        exact DatabaseDeclaration.compile_blames hnames hmem (hvalid database hmem).2 hcompile
      · simp at h

/-! ## A cycle entered from outside -/

/-- An order refers to a user of the other database, from where references go round in a cycle. -/
def Document.lasso : Document where
  databases := [
    { name := "shop", kind := "instance", tables := [{ name := "orders", columns := [
        { name := "buyer", kind := "FK", path := some "fixed.users.first" }] }] },
    { name := "main", kind := "fixed", tables := [{ name := "users", columns := [
        { name := "first", kind := "FK", path := some "users.next" },
        { name := "next", kind := "FK", path := some "users.first" }] }] }]

/-- The order is compiled first, but it is not what the failure is about. -/
def Document.lassoFailure : Failure where
  subject := .referenceCycle (.ofColumn "main" "users" "first")
  location := some (.ofColumn "main" "users" "next")

theorem Document.compile_error_atFault_lasso : lasso.compile = .error lassoFailure ∧
    ∃ place, lassoFailure.location = some place ∧ place.AtFault lasso.databases := by
  have h : lasso.compile = .error lassoFailure := by cbv
  exact ⟨h, compile_error_atFault lasso (.inr rfl) h⟩

end SchemaCompiler
