import SchemaCompiler.Proofs.Schema.Acceptance
import SchemaCompiler.Proofs.Schema.Arrangement

/-! # The order of declarations

Lookups take the first declaration of a name, and references are followed in the order of the document.
Neither shows: a document in another order compiles to the same schema in that order. -/

namespace SchemaCompiler

/-! ## Documents that declare the same -/

/-- Every column of one database is declared in the other one, in a table of the same name. -/
structure DatabaseDeclaration.Within (d d' : DatabaseDeclaration) : Prop where
  name : d'.name = d.name
  kind : d'.kind = d.kind
  columns : ∀ t ∈ d.tables, ∀ c ∈ t.columns, ∃ t' ∈ d'.tables, t'.name = t.name ∧ c ∈ t'.columns

/-- Every database of one document has a counterpart in the other one, which has no other names. -/
structure DeclaredWithin (databases databases' : List DatabaseDeclaration) : Prop where
  counterpart : ∀ d ∈ databases, ∃ d' ∈ databases', d.Within d'
  names : ∀ d' ∈ databases', ∃ d ∈ databases, d.name = d'.name

/-- The same column in the other document. -/
structure Target.Mirrors (t t' : Target) : Prop where
  database : t.database.Within t'.database
  table : t'.table.name = t.table.name
  column : t'.column = t.column

section References

variable {databases databases' : List DatabaseDeclaration} {home home' : DatabaseDeclaration}
  {c : ColumnDeclaration} {path : String} {t t' : Target} {column : Column}

/-- A path denotes the same column in both documents. -/
theorem Denotes.mirror (h : DeclaredWithin databases databases') (hhome : home.Within home')
    (ht : Denotes databases home path t) : ∃ t', Denotes databases' home' path t' ∧ t.Mirrors t' := by
  cases ht with
  | inner htable hcolumn =>
      obtain ⟨table', htable', hname, hcolumn'⟩ := hhome.columns _ htable _ hcolumn
      exact ⟨⟨home', table', _⟩, hname ▸ .inner htable' hcolumn', hhome, hname, rfl⟩
  | named hd htable hcolumn =>
      obtain ⟨d', hd', hwithin⟩ := h.counterpart _ hd
      obtain ⟨table', htable', hname, hcolumn'⟩ := hwithin.columns _ htable _ hcolumn
      exact ⟨⟨d', table', _⟩, hwithin.name ▸ hname ▸ .named hd' htable' hcolumn', hwithin, hname, rfl⟩
  | @typed d table column hd hnone htable hcolumn =>
      obtain ⟨d', hd', hwithin⟩ := h.counterpart _ hd
      obtain ⟨table', htable', hname, hcolumn'⟩ := hwithin.columns _ htable _ hcolumn
      have hnone' : ∀ e ∈ databases', e.name ≠ d'.kind := by
        intro e he
        obtain ⟨e', he', hsame⟩ := h.names e he
        rw [hwithin.kind, ← hsame]
        exact hnone e' he'
      exact ⟨⟨d', table', _⟩, hwithin.kind ▸ hname ▸ .typed hd' hnone' htable' hcolumn', hwithin, hname,
        rfl⟩

/-- A reference takes nothing from its target but names. -/
theorem Target.Mirrors.refer_eq (h : t.Mirrors t') (hhome : home.Within home') (resolved : Column) :
    c.refer home' path t' resolved = c.refer home path t resolved := by
  simp only [ColumnDeclaration.refer, h.database.name, h.table, h.column, hhome.name]

open ForeignKey

/-- What settles in one document settles in another one that declares the same. -/
theorem ForeignKey.Settles.mirror {n : Nat} (h : DeclaredWithin databases databases')
    (hfind : ∀ {home path t}, home ∈ databases' → Denotes databases' home path t →
      findTarget databases' home path = .ok t)
    (hsettles : Settles databases n t column) (hmirrors : t.Mirrors t')
    (ht : t.database ∈ databases) (ht' : t'.database ∈ databases') :
    Settles databases' n t' column := by
  induction hsettles generalizing t' with
  | declared hkind hvalidate =>
      exact .declared (hmirrors.column ▸ hkind) (hmirrors.column ▸ hvalidate)
  | reference hkind hpath hnext hsettles hrefer ih =>
      have hdenotes := denotes_of_findTarget ht hnext
      obtain ⟨next', hdenotes', hmirrors'⟩ := hdenotes.mirror h hmirrors.database
      refine .reference (hmirrors.column ▸ hkind) (hmirrors.column ▸ hpath) (hfind ht' hdenotes')
        (ih hmirrors' (hdenotes.mem ht).1 (hdenotes'.mem ht').1) ?_
      rw [hmirrors'.refer_eq hmirrors.database, hmirrors.column]
      exact hrefer

theorem ForeignKey.Resolves.mirror (h : DeclaredWithin databases databases')
    (hfind : ∀ {home path t}, home ∈ databases' → Denotes databases' home path t →
      findTarget databases' home path = .ok t)
    (hresolves : Resolves databases home c column) (hwithin : home.Within home')
    (hhome : home ∈ databases) (hhome' : home' ∈ databases') : Resolves databases' home' c column := by
  obtain ⟨path, t, n, resolved, hpath, ht, hsettles, hrefer⟩ := hresolves
  have hdenotes := denotes_of_findTarget hhome ht
  obtain ⟨t', hdenotes', hmirrors⟩ := hdenotes.mirror h hwithin
  refine ⟨path, t', n, resolved, hpath, hfind hhome' hdenotes',
    hsettles.mirror h hfind hmirrors (hdenotes.mem hhome).1 (hdenotes'.mem hhome').1, ?_⟩
  rw [hmirrors.refer_eq hwithin]
  exact hrefer

end References

/-! ## Arranged declarations -/

theorem nodup_map_arrange {α β : Type} {o : Arrangement β} {change : β → α → α} {as : List α}
    {suits : β → α → Prop} (h : o.Suits suits as) {f : α → String} (hf : ∀ b a, f (change b a) = f a)
    (hnodup : (as.map f).Nodup) : ((o.apply change as).map f).Nodup := by
  rw [h.map_apply hf]
  exact (permute_perm (by simpa using h.positions)).nodup_iff.mpr hnodup

theorem DatabaseDeclaration.Suits.within {o : DatabaseArrangement} {d : DatabaseDeclaration}
    (h : Suits o d) : d.Within (d.arrange o) where
  name := rfl
  kind := rfl
  columns := by
    intro t ht c hc
    obtain ⟨i, hi⟩ := List.mem_iff_getElem?.mp ht
    have hsuits := h.inside i t hi
    exact ⟨_, (Arrangement.Suits.mem_apply h).mpr ⟨i, t, hi, rfl⟩, rfl,
      (mem_permute hsuits.columns).mpr hc⟩

namespace Document

variable {d : Document} {o : DocumentArrangement} {s : Schema}

theorem Admits.mem_arrange (h : d.Admits o) {i : ℕ} {database : DatabaseDeclaration}
    (hi : d.databases[i]? = some database) :
    database.arrange (o.inside i) ∈ (d.arrange o).databases :=
  (Arrangement.Suits.mem_apply h).mpr ⟨i, database, hi, rfl⟩

theorem Admits.exists_original (h : d.Admits o) {database : DatabaseDeclaration}
    (hd : database ∈ (d.arrange o).databases) : ∃ original ∈ d.databases, ∃ inner,
      DatabaseDeclaration.Suits inner original ∧ original.arrange inner = database := by
  obtain ⟨i, original, hi, rfl⟩ := (Arrangement.Suits.mem_apply h).mp hd
  exact ⟨original, List.mem_of_getElem? hi, o.inside i, h.inside i original hi, rfl⟩

theorem Admits.declaredWithin (h : d.Admits o) :
    DeclaredWithin d.databases (d.arrange o).databases where
  counterpart := by
    intro database hd
    obtain ⟨i, hi⟩ := List.mem_iff_getElem?.mp hd
    exact ⟨_, h.mem_arrange hi, (h.inside i database hi).within⟩
  names := by
    intro database hd
    obtain ⟨original, horiginal, inner, -, rfl⟩ := h.exists_original hd
    exact ⟨original, horiginal, rfl⟩

theorem Admits.distinctNames (h : d.Admits o) (hnames : DistinctNames d.databases) :
    DistinctNames (d.arrange o).databases where
  ofDatabases := nodup_map_arrange h (fun _ _ => rfl) hnames.ofDatabases
  ofTables := by
    intro database hd
    obtain ⟨original, horiginal, inner, hsuits, rfl⟩ := h.exists_original hd
    exact nodup_map_arrange hsuits (fun _ _ => rfl) (hnames.ofTables original horiginal)
  ofColumns := by
    intro database hd t ht
    obtain ⟨original, horiginal, inner, hsuits, rfl⟩ := h.exists_original hd
    obtain ⟨i, t, hi, rfl⟩ := (Arrangement.Suits.mem_apply hsuits).mp ht
    have hperm := permute_perm (hsuits.inside i t hi).columns
    exact (hperm.map _).nodup_iff.mpr (hnames.ofColumns original horiginal t (List.mem_of_getElem? hi))

theorem Admits.undottedNames (h : d.Admits o) (hplain : UndottedNames d.databases) :
    UndottedNames (d.arrange o).databases := by
  have htables : ∀ database ∈ (d.arrange o).databases, ∀ t ∈ database.tables,
      ∃ original ∈ d.databases, ∃ table ∈ original.tables, t.name = table.name ∧
        ∀ c ∈ t.columns, c ∈ table.columns := by
    intro database hd t ht
    obtain ⟨original, horiginal, inner, hsuits, rfl⟩ := h.exists_original hd
    obtain ⟨i, table, hi, rfl⟩ := (Arrangement.Suits.mem_apply hsuits).mp ht
    exact ⟨original, horiginal, table, List.mem_of_getElem? hi, rfl,
      fun c hc => (mem_permute (hsuits.inside i table hi).columns).mp hc⟩
  constructor
  · intro database hd
    obtain ⟨original, horiginal, inner, -, rfl⟩ := h.exists_original hd
    exact hplain.ofDatabases original horiginal
  · intro database hd
    obtain ⟨original, horiginal, inner, -, rfl⟩ := h.exists_original hd
    exact hplain.ofKinds original horiginal
  · intro database hd t ht
    obtain ⟨original, horiginal, table, htable, hname, -⟩ := htables database hd t ht
    rw [hname]
    exact hplain.ofTables original horiginal table htable
  · intro database hd t ht c hc
    obtain ⟨original, horiginal, table, htable, -, hcolumns⟩ := htables database hd t ht
    exact hplain.ofColumns original horiginal table htable c (hcolumns c hc)

end Document

/-! ## What arranged declarations become -/

theorem IndexDeclaration.compile_permute {i : IndexDeclaration} {columns : List Column}
    {index : Schema.Index} {σ : Equiv.Perm ℕ} (hσ : PermutesBelow σ columns.length)
    (h : i.compile columns = .ok index) : i.compile (permute σ columns) = .ok index := by
  simp only [compile_eq_ok, mem_permute hσ] at h ⊢
  exact h

theorem TableDeclaration.Becomes.arrange {databases databases' : List DatabaseDeclaration}
    {home home' : DatabaseDeclaration} {t : TableDeclaration} {table : Schema.Table}
    {o : TableArrangement} (h : t.Becomes databases home table) (hsuits : o.Suits t)
    (hmirror : ∀ (c : ColumnDeclaration) (column : Column),
      c.Becomes databases home column → c.Becomes databases' home' column) :
    (t.arrange o).Becomes databases' home' (table.arrange o) where
  accepted := h.accepted
  supported := h.supported
  distinct := ((permute_perm hsuits.columns).map _).nodup_iff.mpr h.distinct
  name := h.name
  columns := forall₂_permute hsuits.columns
    (h.columns.imp fun c column hcolumn => ⟨hcolumn.1, hmirror c column hcolumn.2⟩)
  indexes := by
    have hcolumns : PermutesBelow o.columns table.columns.length :=
      h.columns.length_eq ▸ hsuits.columns
    exact forall₂_permute hsuits.indexes
      (h.indexes.imp fun _ _ hindex => IndexDeclaration.compile_permute hcolumns hindex)
  primary := by
    have hindexes : PermutesBelow o.indexes table.indexes.length :=
      h.indexes.length_eq ▸ hsuits.indexes
    have hperm := permute_perm hindexes
    rw [Schema.Table.arrange, hperm.countP_eq]
    exact h.primary

namespace Document

variable {d : Document} {o : DocumentArrangement} {s : Schema}

theorem Becomes.documentAccepted (h : d.Becomes s) : d.Accepted := by
  refine ⟨h.count, h.names, h.kinds, ?_⟩
  intro database hd
  obtain ⟨compiled, -, hcompiled⟩ := exists_of_mem_left h.databases hd
  exact DatabaseDeclaration.accepted_of_becomes hd (h.accepted database hd) hcompiled

theorem Becomes.arrange (h : d.Becomes s) (ho : d.Admits o) :
    (d.arrange o).Becomes (s.arrange o) := by
  have hnames := ho.distinctNames h.documentAccepted.distinctNames
  have hkinds : ((d.arrange o).databases.map (·.kind)).Nodup :=
    nodup_map_arrange ho (fun _ _ => rfl) h.kinds
  have hplain := ho.undottedNames h.documentAccepted.undottedNames
  have hwithin := ho.declaredWithin
  -- each column becomes the same as before, by what the paths denote
  have hmirror : ∀ home ∈ d.databases, ∀ home' ∈ (d.arrange o).databases, home.Within home' →
      ∀ (c : ColumnDeclaration) (column : Column), c.Becomes d.databases home column →
        c.Becomes (d.arrange o).databases home' column := by
    intro home hhome home' hhome' hhomes c column hbecomes
    rcases hbecomes with hdeclared | ⟨hkind, hresolve⟩
    · exact .inl hdeclared
    · have hresolves := (ForeignKey.resolve_eq_ok h.names hhome).mp hresolve
      have hresolves' := hresolves.mirror hwithin
        (fun hmem => findTarget_of_denotes hnames hkinds hplain hmem) hhomes hhome hhome'
      exact .inr ⟨hkind, (ForeignKey.resolve_eq_ok hnames.ofDatabases hhome').mpr hresolves'⟩
  refine ⟨?_, ?_, hnames.ofDatabases, hkinds, ?_⟩
  · simpa [Document.arrange] using h.count
  · intro database hd
    obtain ⟨original, horiginal, inner, -, rfl⟩ := ho.exists_original hd
    exact h.accepted original horiginal
  · apply ho.forall₂_apply h.databases
    intro i database compiled hi hcompiled
    have hsuits := ho.inside i database hi
    refine ⟨hcompiled.kind, hcompiled.name, nodup_map_arrange hsuits (fun _ _ => rfl) hcompiled.distinct,
      ?_⟩
    apply Arrangement.Suits.forall₂_apply hsuits hcompiled.tables
    intro j t table hj htable
    exact htable.arrange (hsuits.inside j t hj)
      (hmirror database (List.mem_of_getElem? hi) _ (ho.mem_arrange hi) hsuits.within)

end Document

/-! ## The way back -/

/-- The arrangement that leads back from an arranged database. -/
def DatabaseArrangement.back : DatabaseArrangement → DatabaseArrangement :=
  Arrangement.symm fun o => ⟨o.columns.symm, o.indexes.symm⟩

/-- The arrangement that leads back from an arranged document. -/
def DocumentArrangement.back : DocumentArrangement → DocumentArrangement :=
  Arrangement.symm DatabaseArrangement.back

theorem DatabaseDeclaration.Suits.arrange_back {o : DatabaseArrangement} {d : DatabaseDeclaration}
    (h : Suits o d) : (d.arrange o).arrange o.back = d ∧ Suits o.back (d.arrange o) := by
  constructor
  · have htables : o.back.apply TableDeclaration.arrange (d.arrange o).tables = d.tables := by
      apply Arrangement.Suits.apply_symm_apply h
      intro inner t ht
      simp only [TableDeclaration.arrange, permute_symm_permute ht.columns,
        permute_symm_permute ht.indexes]
    exact congrArg (fun tables => ({ d with tables := tables } : DatabaseDeclaration)) htables
  · apply Arrangement.Suits.symm_apply h
    intro inner t ht
    exact ⟨by simpa [TableDeclaration.arrange] using ht.columns.symm,
      by simpa [TableDeclaration.arrange] using ht.indexes.symm⟩

namespace Document

variable {d : Document} {o : DocumentArrangement}

theorem Admits.arrange_back (h : d.Admits o) :
    (d.arrange o).arrange o.back = d ∧ (d.arrange o).Admits o.back := by
  constructor
  · have hdatabases : o.back.apply DatabaseDeclaration.arrange (d.arrange o).databases = d.databases :=
      h.apply_symm_apply fun _ _ hd => hd.arrange_back.1
    exact congrArg Document.mk hdatabases
  · exact h.symm_apply fun _ _ hd => hd.arrange_back.2

/-- A document and the same document in another order both compile or both fail. What they compile to
is the same schema, in the order of each: no column depends on the order in any of its parts. -/
theorem compile_arrange (h : d.Admits o) :
    ((∃ s, (d.arrange o).compile = .ok s) ↔ ∃ s, d.compile = .ok s) ∧
      ∀ s, d.compile = .ok s → (d.arrange o).compile = .ok (s.arrange o) := by
  have hforward : ∀ {d : Document} {o : DocumentArrangement}, d.Admits o → ∀ s, d.compile = .ok s →
      (d.arrange o).compile = .ok (s.arrange o) :=
    fun ho _ hs => compile_eq_ok.mpr ((compile_eq_ok.mp hs).arrange ho)
  refine ⟨⟨?_, ?_⟩, hforward h⟩
  · rintro ⟨s, hs⟩
    obtain ⟨hback, hadmits⟩ := h.arrange_back
    exact ⟨s.arrange o.back, hback ▸ hforward hadmits s hs⟩
  · rintro ⟨s, hs⟩
    exact ⟨s.arrange o, hforward h s hs⟩

/-! ## A reference forwards and backwards -/

/-- Orders refer to users of the database after them, and items to the orders before them. -/
def market : Document where
  databases := [
    { name := "shop", kind := "instance", tables := [
        { name := "orders",
          columns := [{ name := "id", kind := "serial", size := some "INT" },
            { name := "buyer", kind := "FK", path := some "fixed.users.id" }],
          indexes := [{ kind := "index", columns := ["buyer", "id"] },
            { kind := "primary", columns := ["id"] }] },
        { name := "items", columns := [
            { name := "order", kind := "FK", path := some "orders.id" }] }] },
    { name := "main", kind := "fixed", tables := [{ name := "users", columns := [
        { name := "id", kind := "serial", size := some "INT" }] }] }]

/-- The databases change places, and so do the tables of the first one, and the columns and indexes of
the first of these. -/
def marketReversed : DocumentArrangement where
  positions := Equiv.swap 0 1
  inside
    | 0 => ⟨Equiv.swap 0 1, fun
        | 0 => ⟨Equiv.swap 0 1, Equiv.swap 0 1⟩
        | _ => ⟨1, 1⟩⟩
    | _ => ⟨1, fun _ => ⟨1, 1⟩⟩

theorem compile_arrange_market : market.Admits marketReversed ∧ ∃ s, market.compile = .ok s ∧
    (market.arrange marketReversed).compile = .ok (s.arrange marketReversed) := by
  have hone : ∀ n, PermutesBelow 1 n := fun _ _ => Iff.rfl
  have hadmits : market.Admits marketReversed := by
    refine ⟨permutesBelow_swap (by decide) (by decide), ?_⟩
    rintro (_ | _ | i) database hd <;> cases hd
    · refine ⟨permutesBelow_swap (by decide) (by decide), ?_⟩
      rintro (_ | _ | i) t ht <;> cases ht
      · exact ⟨permutesBelow_swap (by decide) (by decide), permutesBelow_swap (by decide) (by decide)⟩
      · exact ⟨hone _, hone _⟩
    · exact ⟨hone _, fun _ _ _ => ⟨hone _, hone _⟩⟩
  obtain ⟨s, hs⟩ : ∃ s, market.compile = .ok s := by
    have hcompiles : market.compile.toOption.isSome := by cbv
    cases h : market.compile with
    | ok s => exact ⟨s, rfl⟩
    | error e =>
        rw [h] at hcompiles
        cases hcompiles
  exact ⟨hadmits, s, hs, (compile_arrange hadmits).2 s hs⟩

end Document

end SchemaCompiler
