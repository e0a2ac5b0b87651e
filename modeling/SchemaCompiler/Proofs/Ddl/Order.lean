import SchemaCompiler.Proofs.Ddl.References
import SchemaCompiler.Proofs.Schema.Order

/-! # Foreign keys to earlier tables

The scripts of a schema create its tables in declaration order, whatever they refer to. Every foreign key
finds its table created where no reference that is enforced leads to a table that is declared later, and
only there. -/

namespace SchemaCompiler

namespace Ddl

/-! ## Targets that are created later -/

variable {created : List Creation} {target : TableName}

/-- A list is ordered pairwise where every item goes before each one behind it. -/
theorem pairwise_iff_forall_split {α : Type} {R : α → α → Prop} {xs : List α} :
    xs.Pairwise R ↔ ∀ before x after, xs = before ++ x :: after → ∀ y ∈ after, R x y := by
  induction xs with
  | nil => simp
  | cons x xs ih =>
      rw [List.pairwise_cons, ih]
      constructor
      · rintro ⟨hx, hrest⟩ before y after heq
        rcases List.cons_eq_append_iff.mp heq with ⟨rfl, hcons⟩ | ⟨before, rfl, hsplit⟩
        · cases hcons
          exact hx
        · exact hrest before y after hsplit
      · intro h
        exact ⟨h [] x xs rfl, fun before y after hsplit =>
          h (x :: before) y after (congrArg (x :: ·) hsplit)⟩

/-- Where all targets are created under names of their own, they are created in time if and only if none
is created later than the table that refers to it. -/
theorem supported_iff_pairwise (hnames : (created.map (·.tableName)).Nodup)
    (hclosed : ∀ x ∈ created, ∀ target ∈ x.targets, target ∈ created.map (·.tableName)) :
    Supported created ↔ created.Pairwise fun x y => y.tableName ∉ x.targets := by
  rw [Supported, pairwise_iff_forall_split]
  refine forall₄_congr fun before x after hsplit => ?_
  have hmap : created.map (·.tableName) =
      (before ++ [x]).map (·.tableName) ++ after.map (·.tableName) := by
    rw [hsplit, List.append_cons, List.map_append]
  rw [hmap] at hnames
  have hdisjoint := (List.nodup_append.mp hnames).2.2
  have hx : x ∈ created := hsplit ▸ List.mem_append_right _ (List.mem_cons_self ..)
  constructor
  · intro h y hy hmem
    exact hdisjoint _ (h _ hmem) _ (List.mem_map_of_mem hy) rfl
  · intro h target htarget
    have hknown := hclosed x hx target htarget
    rw [hmap] at hknown
    refine (List.mem_append.mp hknown).resolve_right fun hlater => ?_
    obtain ⟨y, hy, rfl⟩ := List.mem_map.mp hlater
    exact h y hy htarget

end Ddl

/-! ## Documents -/

/-- A table has a reference to a column of another one that is enforced by a foreign key. -/
def Document.RefersTo (d : Document) (holder other : DatabaseDeclaration × TableDeclaration) : Prop :=
  ∃ c ∈ holder.2.columns, c.isEnforced ∧ ∃ path column, c.path = some path ∧
    Denotes d.databases holder.1 path ⟨other.1, other.2, column⟩

/-- No table refers to one that is declared later. -/
def Document.RefersBack (d : Document) : Prop :=
  d.tables.Pairwise fun earlier later => ¬d.RefersTo earlier later

open Ddl

/-- The table that is created for a declared one is the one that it was compiled to. -/
inductive Document.Creates (d : Document) (declared : DatabaseDeclaration × TableDeclaration) :
    Creation → Prop where
  | intro {database : Schema.Database} {table : Schema.Table} (home : declared.1 ∈ d.databases)
      (mem : declared.2 ∈ declared.1.tables) (hdatabase : declared.1.Becomes d.databases database)
      (htable : declared.2.Becomes d.databases declared.1 table) :
      Creates d declared ⟨database.name, createTable table⟩

namespace Ddl

variable {created : List Creation} {target : TableName}

/-- The target of a foreign key that holds among created tables is one of them. -/
theorem Constraint.Holds.target_mem {k : Constraint} {holder : Creation} (h : k.Holds created holder)
    (htarget : k.target? holder.database = some target) : target ∈ created.map (·.tableName) := by
  cases h with
  | primaryKey | unique | index => cases htarget
  | foreignKey _ hdenotes =>
      cases htarget
      obtain ⟨creation, hfilter, -⟩ := hdenotes
      have hmem : creation ∈ created.filter _ := hfilter ▸ List.mem_singleton_self creation
      obtain ⟨hcreated, hnames⟩ := List.mem_filter.mp hmem
      obtain ⟨hdatabase, htable⟩ := of_decide_eq_true hnames
      exact List.mem_map.mpr ⟨creation, hcreated, by rw [Creation.tableName, hdatabase, htable]⟩

theorem mem_targets_createTable {database : String} {table : Schema.Table} :
    target ∈ Creation.targets ⟨database, createTable table⟩ ↔ ∃ column ∈ table.columns, ∃ k,
      referenceConstraint? column = some k ∧ k.target? database = some target := by
  have hindex : ∀ i : Schema.Index, (indexConstraint i).target? database = none := by
    intro i
    unfold indexConstraint
    cases i.kind <;> rfl
  simp only [Creation.targets, createTable, List.filterMap_append, List.mem_append, List.mem_filterMap,
    List.mem_map]
  constructor
  · rintro (⟨_, ⟨i, -, rfl⟩, htarget⟩ | ⟨k, ⟨column, hcolumn, hk⟩, htarget⟩)
    · cases (hindex i).symm.trans htarget
    · exact ⟨column, hcolumn, k, hk, htarget⟩
  · rintro ⟨column, hcolumn, k, hk, htarget⟩
    exact .inr ⟨k, ⟨column, hcolumn, hk⟩, htarget⟩

end Ddl

/-- What a reference asks for refers to the table of what its path denotes. -/
theorem ColumnDeclaration.AsksFor.exists_target {databases : List DatabaseDeclaration}
    {home : DatabaseDeclaration} {c : ColumnDeclaration} {k : Constraint} (h : c.AsksFor databases home k) :
    ∃ path t, c.path = some path ∧ Denotes databases home path t ∧
      k.target? home.name = some ⟨t.database.name, t.table.name⟩ := by
  cases h with
  | intro hpath htarget _ _ hdatabase =>
      exact ⟨_, _, hpath, htarget, by rw [Constraint.target?, hdatabase]⟩

section Documents

variable {d : Document} {s : Schema} {declared other : DatabaseDeclaration × TableDeclaration}
  {x y : Creation}

theorem Document.Creates.tableName (h : d.Creates declared x) :
    x.tableName = ⟨declared.1.name, declared.2.name⟩ := by
  cases h with
  | intro _ _ hdatabase htable =>
      rw [Creation.tableName, hdatabase.name]
      exact congrArg _ htable.name

theorem Document.Becomes.creates (h : d.Becomes s) (options : Options) :
    List.Forall₂ d.Creates d.tables (created options s) := by
  rw [created_eq]
  have hdatabases := (List.forall₂_and_left _ _).mpr ⟨fun _ hd => hd, h.databases⟩
  refine List.rel_flatMap hdatabases ?_
  rintro home database ⟨hhome, hdatabase⟩
  rw [List.forall₂_map_left_iff, List.forall₂_map_right_iff]
  have htables := (List.forall₂_and_left _ _).mpr ⟨fun _ ht => ht, hdatabase.tables⟩
  exact htables.imp fun t table ⟨ht, htable⟩ => .intro hhome ht hdatabase htable

/-- Lists that match item by item are ordered alike. -/
theorem pairwise_iff_of_forall₂ {α β : Type} {R : α → β → Prop} {P : α → α → Prop} {Q : β → β → Prop}
    {as : List α} {bs : List β} (h : List.Forall₂ R as bs)
    (hiff : ∀ a b a' b', R a b → R a' b' → (P a a' ↔ Q b b')) : as.Pairwise P ↔ bs.Pairwise Q := by
  induction h with
  | nil => simp
  | @cons a b as bs hab hrest ih =>
      rw [List.pairwise_cons, List.pairwise_cons, ih]
      refine and_congr_left' ⟨fun hfirst b' hb' => ?_, fun hfirst a' ha' => ?_⟩
      · obtain ⟨a', ha', hab'⟩ := exists_of_mem_right hrest hb'
        exact (hiff _ _ _ _ hab hab').mp (hfirst a' ha')
      · obtain ⟨b', hb', hab'⟩ := exists_of_mem_left hrest ha'
        exact (hiff _ _ _ _ hab hab').mpr (hfirst b' hb')

/-- Names tell the tables of an accepted document apart. -/
theorem Document.Becomes.eq_of_names (h : d.Becomes s) {home : DatabaseDeclaration} {t : TableDeclaration}
    (hhome : home ∈ d.databases) (ht : t ∈ home.tables) (hy : d.Creates other y)
    (hnames : home.name = other.1.name ∧ t.name = other.2.name) : (home, t) = other := by
  obtain ⟨home', t'⟩ := other
  cases hy with
  | intro hhome' ht' hdatabase _ =>
      obtain rfl : home = home' := List.inj_on_of_nodup_map h.names hhome hhome' hnames.1
      obtain rfl : t = t' := List.inj_on_of_nodup_map hdatabase.distinct ht ht' hnames.2
      rfl

/-- A created table refers to another one exactly where the declared ones do. -/
theorem Document.Becomes.mem_targets_iff (h : d.Becomes s) (hx : d.Creates declared x)
    (hy : d.Creates other y) : y.tableName ∈ x.targets ↔ d.RefersTo declared other := by
  rw [hy.tableName]
  cases hx with
  | @intro database table hhome _ hdatabase htable =>
      rw [mem_targets_createTable]
      constructor
      · rintro ⟨column, hcolumn, k, hk, htarget⟩
        obtain ⟨c, hc, -, hbecomes⟩ := exists_of_mem_right htable.columns hcolumn
        obtain ⟨path, t, hpath, hdenotes, htarget'⟩ :=
          (asksFor_of_referenceConstraint? hhome hbecomes hk).exists_target
        rw [hdatabase.name, htarget', Option.some.injEq, TableName.mk.injEq] at htarget
        have hsame := h.eq_of_names (hdenotes.mem hhome).1 (hdenotes.mem hhome).2.1 hy htarget
        obtain ⟨home, table, target⟩ := t
        cases hsame
        have henforced : c.isEnforced := by rw [isEnforced_eq hbecomes, hk, Option.isSome_some]
        exact ⟨c, hc, henforced, path, target, hpath, hdenotes⟩
      · rintro ⟨c, hc, henforced, path, target, hpath, hdenotes⟩
        obtain ⟨column, hcolumn, -, hbecomes⟩ := exists_of_mem_left htable.columns hc
        rw [isEnforced_eq hbecomes, Option.isSome_iff_exists] at henforced
        obtain ⟨k, hk⟩ := henforced
        obtain ⟨path', t, hpath', hdenotes', htarget⟩ :=
          (asksFor_of_referenceConstraint? hhome hbecomes hk).exists_target
        cases hpath.symm.trans hpath'
        have hfind := h.documentAccepted.findTarget_of_denotes hhome hdenotes
        cases hfind.symm.trans (h.documentAccepted.findTarget_of_denotes hhome hdenotes')
        exact ⟨column, hcolumn, k, hk, hdatabase.name ▸ htarget⟩

/-- Whatever a created table refers to is created as well. -/
theorem Document.Becomes.targets_subset (h : d.Becomes s) (options : Options) :
    ∀ x ∈ created options s, ∀ target ∈ x.targets, target ∈ (created options s).map (·.tableName) := by
  intro x hx target htarget
  obtain ⟨declared, -, hcreates⟩ := exists_of_mem_right (h.creates options) hx
  cases hcreates with
  | intro hhome _ hdatabase htable =>
      obtain ⟨column, hcolumn, k, hk, hname⟩ := mem_targets_createTable.mp htarget
      exact (holds_referenceConstraint? options h hhome hdatabase htable hcolumn hk).target_mem hname

theorem Document.Becomes.map_tableName (h : d.Becomes s) (options : Options) :
    (created options s).map (·.tableName) = d.tables.map fun t => ⟨t.1.name, t.2.name⟩ :=
  (map_eq_map_of_forall₂ (h.creates options) fun _ _ hcreates => hcreates.tableName.symm).symm

/-- All created tables have names of their own. -/
theorem Document.Becomes.nodup_tableName (h : d.Becomes s) (options : Options) :
    ((created options s).map (·.tableName)).Nodup := by
  rw [h.map_tableName, Document.tables, List.map_flatMap, List.nodup_flatMap]
  constructor
  · intro home hhome
    obtain ⟨_, -, hdatabase⟩ := exists_of_mem_left h.databases hhome
    rw [List.map_map]
    refine List.Nodup.of_map TableName.table ?_
    rw [List.map_map]
    exact hdatabase.distinct
  · refine (List.pairwise_map.mp h.names).imp fun hne name hfirst hsecond => ?_
    simp only [List.map_map, List.mem_map] at hfirst hsecond
    obtain ⟨t, -, rfl⟩ := hfirst
    obtain ⟨t', -, heq⟩ := hsecond
    exact hne (congrArg TableName.database heq).symm

/-- Every foreign key of the scripts refers to a table that an earlier statement created, or to its own,
exactly where no enforced reference leads to a table that is declared later. -/
theorem Document.compile_refers_back (h : d.compile = .ok s) (options : Options) :
    Supported (created options s) ↔ d.RefersBack := by
  have hbecomes := compile_eq_ok.mp h
  rw [supported_iff_pairwise (hbecomes.nodup_tableName options) (hbecomes.targets_subset options)]
  exact (pairwise_iff_of_forall₂ (hbecomes.creates options) fun _ _ _ _ hx hy =>
    not_congr (hbecomes.mem_targets_iff hx hy).symm).symm

theorem Document.compile_refers_back_chained :
    Document.chained.compile = .ok Schema.Chained.schema ∧ Document.chained.RefersBack ∧
      Supported (created {} Schema.Chained.schema) := by
  have h : Document.chained.compile = .ok Schema.Chained.schema := by cbv
  have hback : Document.chained.RefersBack := by
    refine List.pairwise_pair.mpr ?_
    rintro ⟨c, hc, henforced, -⟩
    have hnone : ∀ c ∈ (Document.chained.tables.map (·.2.columns)).headD [], c.isEnforced = false := by
      decide
    cases henforced.symm.trans (hnone c hc)
  exact ⟨h, hback, (compile_refers_back h {}).mpr hback⟩

/-! ## Tables in the wrong order -/

/-- A table with a reference to the one after it. -/
def Document.premature : Document where
  databases := [
    { name := "shop", kind := "fixed", tables := [
        { name := "orders", columns := [
            { name := "buyer", kind := "FK", path := some "users.id", onDelete := some "CASCADE" }] },
        { name := "users", columns := [{ name := "id", kind := "serial", size := some "INT" }] }] }]

namespace Schema.Premature

def buyer : Column :=
  ⟨"buyer", false, none, .integer .regular true false ⟨1, 4294967295⟩,
    some ⟨"shop", false, "users", "id", some .cascade⟩⟩

def id : Column := ⟨"id", false, none, .serial .regular ⟨1, 4294967295⟩, none⟩

def schema : Schema := ⟨[⟨"shop", .core, [⟨"orders", [buyer], []⟩, ⟨"users", [id], []⟩]⟩]⟩

end Schema.Premature

/-- The document is accepted, and its first table is created with a foreign key to the second. -/
theorem Document.unsupported_premature :
    Document.premature.compile = .ok Schema.Premature.schema ∧
      ¬Supported (created {} Schema.Premature.schema) := by
  constructor
  · cbv
  · intro h
    have hknown := h [] _ _ (by rfl) ⟨"shop", "users"⟩ (by decide)
    revert hknown
    decide

end Documents

end SchemaCompiler
