import SchemaCompiler.Descriptor.Emission
import SchemaCompiler.Proofs.Column.Validity
import SchemaCompiler.Proofs.Descriptor.Module
import SchemaCompiler.Proofs.Schema.References

/-! # The descriptor of a compiled schema is legal

Names keep away from the keys that every object has, by their patterns or by the one check of the emitter.
Numbers are exact and enumerations distinct by the rules of columns. -/

namespace SchemaCompiler

namespace Descriptor

open EsModule EsModule.Token

/-! ## Keys -/

theorem LegalKeys.sublist {keys keys' : List String} (h : LegalKeys keys)
    (hsub : keys'.Sublist keys) : LegalKeys keys' where
  words key hkey := h.words key (hsub.subset hkey)
  distinct := h.distinct.sublist ((hsub.cons_cons _).cons_cons _)
  prototype hmem := h.prototype (hsub.subset hmem)

/-- The keys of all fields that a column may have. -/
def fieldKeys : List String :=
  ["_table", "type", "nullable"] ++ ["defaultValue"] ++
    ["size", "unsigned", "autoIncrement", "minLength", "maxLength", "minSize", "maxSize"] ++
    ["minValue", "maxValue"] ++ ["references"] ++ ["nameToCode", "codeToName", "codes"]

theorem legalKeys_fieldKeys : LegalKeys fieldKeys :=
  ⟨by decide, by decide, by decide⟩

theorem defaultFields_keys (c : Column) :
    ((defaultFields c).map Prod.fst).Sublist ["defaultValue"] := by
  unfold defaultFields
  split
  · exact .refl _
  · exact List.nil_sublist _

theorem typeFields_keys (type : ColumnType) : ((typeFields type).map Prod.fst).Sublist
    ["size", "unsigned", "autoIncrement", "minLength", "maxLength", "minSize", "maxSize"] := by
  cases type with
  | integer | serial | timestamp | binary | boolean | code =>
      apply List.isSublist_iff_sublist.mp
      rfl
  | string minLength maxLength =>
      apply List.isSublist_iff_sublist.mp
      cases minLength <;> rfl

theorem boundsFields_keys (c : Column) :
    ((boundsFields c).map Prod.fst).Sublist ["minValue", "maxValue"] := by
  unfold boundsFields
  split
  · exact .refl _
  · exact List.nil_sublist _

theorem referenceFields_keys (c : Column) :
    ((referenceFields c).map Prod.fst).Sublist ["references"] := by
  unfold referenceFields
  split
  · exact .refl _
  · exact List.nil_sublist _

theorem codeFields_keys (c : Column) :
    ((codeFields c).map Prod.fst).Sublist ["nameToCode", "codeToName", "codes"] := by
  unfold codeFields
  split
  · exact .refl _
  · exact List.nil_sublist _

theorem columnRecord_keys (c : Column) :
    ((columnRecord c).fields.map Prod.fst).Sublist fieldKeys := by
  simp only [columnRecord, List.map_append]
  exact (((((List.Sublist.refl _).append (defaultFields_keys c)).append
    (typeFields_keys c.type)).append (boundsFields_keys c)).append
    (referenceFields_keys c)).append (codeFields_keys c)

/-! ## Fields -/

@[simp] theorem isLegal_bool (b : Bool) : (bool b).IsLegal := trivial

@[simp] theorem isLegal_int {n : Int64} : (int n).IsLegal ↔ IsSafeInteger n := Iff.rfl

@[simp] theorem isLegal_string (s : String) : (string s).IsLegal := trivial

variable {c : Column}

theorem defaultFields_legal (h : c.IsValid) : ∀ field ∈ defaultFields c, field.2.IsLegal := by
  unfold defaultFields
  split
  · next value hvalue =>
      have hvalid := h.default value hvalue
      intro field hfield
      rw [List.mem_singleton.mp hfield]
      cases value with
      | integer n => exact hvalid
      | empty => trivial
      | hex digits => trivial
  · simp

theorem typeFields_legal {type : ColumnType} (h : type.IsValid) :
    ∀ field ∈ typeFields type, field.2.IsLegal := by
  cases type with
  | integer | serial | timestamp | boolean | code => simp [typeFields]
  | string minLength maxLength =>
      cases minLength with
      | none => simpa [typeFields] using h.2
      | some least => simpa [typeFields] using And.intro (h.1 least rfl) h.2
  | binary minSize maxSize => simpa [typeFields] using And.intro h.1 h.2

theorem boundsFields_legal (h : c.IsValid) : ∀ field ∈ boundsFields c, field.2.IsLegal := by
  unfold boundsFields
  split
  · next bounds hbounds =>
      have hvalid := ColumnType.bounds_isValid h.type hbounds
      simpa using And.intro hvalid.min hvalid.max
  · simp

theorem referenceFields_legal (c : Column) :
    ∀ field ∈ referenceFields c, field.2.IsLegal := by
  unfold referenceFields
  split <;> simp

/-- Codes are numbers of one byte. -/
theorem isExact_code (n : Fin 256) : Scalar.IsExact (.int (n : Nat)) :=
  isSafeInteger_code n

/-- A code's name has no small letter, unlike the key of the prototype. -/
theorem nameToCode_legal {domain : CodeDomain} (h : domain.IsValid) :
    (Field.lookup (domain.values.map fun v => (v.name, .int (v.code : Nat)))).IsLegal := by
  have hkeys : (domain.values.map fun v => (v.name, Scalar.int (v.code : Nat))).map Prod.fst =
      domain.values.map (·.name) := by
    rw [List.map_map]
    rfl
  refine ⟨hkeys ▸ h.names, ?_, ?_⟩
  · rw [hkeys]
    intro hmem
    obtain ⟨v, hv, hname⟩ := List.mem_map.mp hmem
    have haccepts := h.accepted v hv
    rw [hname] at haccepts
    exact absurd haccepts (by decide)
  · intro entry hentry
    obtain ⟨v, -, rfl⟩ := List.mem_map.mp hentry
    exact isExact_code v.code

/-- A code is written with digits, unlike the key of the prototype. -/
theorem codeToName_legal {domain : CodeDomain} (h : domain.IsValid) :
    (Field.lookup (domain.values.map fun v => (toString (v.code : Nat), .string v.name))).IsLegal := by
  have hkeys : (domain.values.map fun v => (toString (v.code : Nat), Scalar.string v.name)).map
      Prod.fst = (domain.values.map (·.code)).map fun code : Fin 256 => toString (code : Nat) := by
    rw [List.map_map, List.map_map]
    rfl
  refine ⟨?_, ?_, ?_⟩
  · rw [hkeys]
    exact h.codes.map fun _ _ hcode => Fin.ext (toString_injective hcode)
  · rw [hkeys]
    intro hmem
    obtain ⟨code, -, hkey⟩ := List.mem_map.mp hmem
    have hdigit : '_' ∈ Nat.toDigits 10 code := by
      rw [← toList_toString, hkey]
      decide
    exact absurd (isDigit_of_mem_toDigits hdigit) (by decide)
  · intro entry hentry
    obtain ⟨v, -, rfl⟩ := List.mem_map.mp hentry
    trivial

theorem codes_legal (domain : CodeDomain) :
    (Field.list (domain.sortedCodes.map fun code : Fin 256 => .int (code : Nat))).IsLegal := by
  intro s hs
  obtain ⟨code, -, rfl⟩ := List.mem_map.mp hs
  exact isExact_code code

theorem codeFields_legal (h : c.IsValid) : ∀ field ∈ codeFields c, field.2.IsLegal := by
  unfold codeFields
  split
  · next domain hdomain =>
      have hvalid : domain.IsValid := by
        have htype := h.type
        unfold Column.codeDomain? at hdomain
        split at hdomain
        · next hcode =>
            cases hdomain
            rwa [hcode] at htype
        · cases hdomain
      simpa using And.intro (nameToCode_legal hvalid)
        (And.intro (codeToName_legal hvalid) (codes_legal domain))
  · simp

theorem columnRecord_isLegal (h : c.IsValid) : (columnRecord c).IsLegal := by
  refine ⟨legalKeys_fieldKeys.sublist (columnRecord_keys c), ?_⟩
  have hfront : ∀ field ∈ [("_table", Field.table), ("type", string c.type.kind.token),
      ("nullable", bool c.nullable)], field.2.IsLegal := by
    simp [string, bool, Field.IsLegal, Scalar.IsExact]
  intro field hfield
  simp only [columnRecord, List.mem_append] at hfield
  rcases hfield with ((((hfield | hfield) | hfield) | hfield) | hfield) | hfield
  · exact hfront field hfield
  · exact defaultFields_legal h field hfield
  · exact typeFields_legal h.type field hfield
  · exact boundsFields_legal h field hfield
  · exact referenceFields_legal c field hfield
  · exact codeFields_legal h field hfield

/-! ## Names -/

theorem isWord_of_accepts {kind : Identifier} {name : String} (hkind : kind ≠ .code)
    (h : kind.accepts name) : IsWord name := by
  have hlower : ∀ c, Identifier.isLower c → startsWord c := by
    intro c hc
    have hletters : Identifier.letters.all startsWord := by decide
    exact List.all_eq_true.mp hletters c (Identifier.mem_letters.mpr hc)
  have hupper : ∀ c, Identifier.isUpper c → startsWord c := by
    intro c hc
    have hcapitals : Identifier.capitals.all startsWord := by decide
    exact List.all_eq_true.mp hcapitals c (Identifier.mem_capitals.mpr hc)
  have hdigit : ∀ c, Identifier.isDigit c → continuesWord c := by
    intro c hc
    have hdigits : Identifier.digits.all continuesWord := by decide
    exact List.all_eq_true.mp hdigits c (Identifier.mem_digits.mpr hc)
  have hstart : ∀ c, startsWord c → continuesWord c := by
    intro c hc
    rw [continuesWord, hc, Bool.true_or]
  obtain ⟨c, rest, hname, hc, hrest, -⟩ := Identifier.accepts_iff.mp h
  refine ⟨c, rest, hname, ?_, ?_⟩
  · cases kind with
    | code => exact absurd rfl hkind
    | column => exact hlower c hc
    | database | table =>
        simp only [Identifier.startsWith, Bool.or_eq_true, decide_eq_true_eq] at hc
        rcases hc with hc | rfl
        · exact hlower c hc
        · decide
  · intro x hx
    have hclass := hrest x hx
    cases kind with
    | code => exact absurd rfl hkind
    | column =>
        simp only [Identifier.continuesWith, Bool.or_eq_true] at hclass
        rcases hclass with (hx | hx) | hx
        · exact hstart x (hlower x hx)
        · exact hstart x (hupper x hx)
        · exact hdigit x hx
    | database =>
        simp only [Identifier.continuesWith, Bool.or_eq_true, decide_eq_true_eq] at hclass
        rcases hclass with (hx | hx) | rfl
        · exact hstart x (hlower x hx)
        · exact hdigit x hx
        · decide
    | table =>
        simp only [Identifier.continuesWith, Bool.or_eq_true, decide_eq_true_eq] at hclass
        rcases hclass with hx | rfl
        · exact hstart x (hlower x hx)
        · decide

/-- Distinct names of one kind are legal keys as soon as they keep away from the keys of every object. -/
theorem legalKeys_of_accepts {kind : Identifier} {names : List String} (hkind : kind ≠ .code)
    (haccepts : ∀ name ∈ names, kind.accepts name) (hdistinct : names.Nodup)
    (hfree : ∀ key ∈ ["_objectType", "_name", prototypeKey], key ∉ names) : LegalKeys names where
  words name hname := isWord_of_accepts hkind (haccepts name hname)
  distinct := by
    rw [List.nodup_cons, List.nodup_cons, List.mem_cons, not_or]
    exact ⟨⟨by decide, hfree _ (by simp)⟩, hfree _ (by simp), hdistinct⟩
  prototype := hfree _ (by simp)

/-! ## Tables -/

section Tables

variable {databases : List DatabaseDeclaration} {home : DatabaseDeclaration}

theorem isValid_of_becomes {c : ColumnDeclaration} {column : Column}
    (h : c.Becomes databases home column) : column.IsValid := by
  rcases h with ⟨-, hvalidate⟩ | ⟨-, hresolve⟩
  · obtain ⟨kind, -, hrule⟩ := ColumnDeclaration.validate_eq_ok.mp hvalidate
    exact ColumnDeclaration.rule_isValid hrule
  · obtain ⟨_, _, _, _, -, -, hsettles, hrefer⟩ := ForeignKey.settles_of_resolveFrom hresolve
    exact ColumnDeclaration.refer_isValid hsettles.isValid hrefer

/-- A column's name starts with a small letter, unlike the keys of every object. -/
theorem tableRecord_isLegal {t : TableDeclaration} {table : Schema.Table}
    (h : t.Becomes databases home table) : (tableRecord table).IsLegal := by
  have hnames : (tableRecord table).columns.map (·.name) = t.columns.map (·.name) := by
    rw [h.columnNames, tableRecord, List.map_map]
    rfl
  have haccepts : ∀ name ∈ t.columns.map (·.name), Identifier.column.accepts name := by
    intro name hname
    obtain ⟨c, hc, rfl⟩ := List.mem_map.mp hname
    obtain ⟨_, -, haccepts, -⟩ := exists_of_mem_left h.columns hc
    exact haccepts
  refine ⟨?_, ?_⟩
  · rw [hnames]
    apply legalKeys_of_accepts (by decide) haccepts h.distinct
    intro key hkey hmem
    have hnone : ∀ key ∈ ["_objectType", "_name", prototypeKey],
        Identifier.column.accepts key = false := by
      decide
    have hcolumn := haccepts key hmem
    rw [hnone key hkey] at hcolumn
    cases hcolumn
  · intro c hc
    obtain ⟨column, hcolumn, rfl⟩ := List.mem_map.mp hc
    obtain ⟨_, -, -, hbecomes⟩ := exists_of_mem_right h.columns hcolumn
    exact columnRecord_isLegal (isValid_of_becomes hbecomes)

end Tables

/-! ## Databases -/

theorem checkedTableRecord_eq_ok {d : Schema.Database} {t : Schema.Table} {r : TableRecord} :
    checkedTableRecord d t = .ok r ↔ t.name ∉ reservedTableNames ∧ tableRecord t = r := by
  unfold checkedTableRecord
  split <;> simp_all

theorem databaseRecord_eq_ok {d : Schema.Database} {r : DatabaseRecord} :
    databaseRecord d = .ok r ↔ (∀ t ∈ d.tables, t.name ∉ reservedTableNames) ∧
      ⟨d.kind.namespaceName, d.name, d.tables.map tableRecord⟩ = r := by
  simp only [databaseRecord, bind_eq_ok, mapM_eq_ok, checkedTableRecord_eq_ok, pure_eq_ok]
  constructor
  · rintro ⟨tables, htables, rfl⟩
    have hsame : d.tables.map tableRecord = tables.map id :=
      map_eq_map_of_forall₂ htables fun _ _ htable => htable.2
    refine ⟨?_, by rw [hsame, List.map_id]⟩
    intro t ht
    obtain ⟨_, -, hfree, -⟩ := exists_of_mem_left htables ht
    exact hfree
  · rintro ⟨hfree, rfl⟩
    refine ⟨_, ?_, rfl⟩
    rw [List.forall₂_map_right_iff, List.forall₂_same]
    exact fun t ht => ⟨hfree t ht, rfl⟩

/-- A table's name has no capital letter, and the emitter refuses the other keys of every object. -/
theorem databaseRecord_isLegal {databases : List DatabaseDeclaration} {d : DatabaseDeclaration}
    {database : Schema.Database} {r : DatabaseRecord} (h : d.Becomes databases database)
    (hr : databaseRecord database = .ok r) : r.IsLegal := by
  obtain ⟨hfree, rfl⟩ := databaseRecord_eq_ok.mp hr
  have hnames : (database.tables.map tableRecord).map (·.name) = d.tables.map (·.name) := by
    rw [h.tableNames, List.map_map]
    rfl
  have haccepts : ∀ name ∈ d.tables.map (·.name), Identifier.table.accepts name := by
    intro name hname
    obtain ⟨t, ht, rfl⟩ := List.mem_map.mp hname
    obtain ⟨_, -, hbecomes⟩ := exists_of_mem_left h.tables ht
    exact hbecomes.accepted
  refine ⟨?_, ?_⟩
  · rw [hnames]
    apply legalKeys_of_accepts (by decide) haccepts h.distinct
    intro key hkey hmem
    have hkeys : ∀ key ∈ ["_objectType", "_name", prototypeKey],
        Identifier.table.accepts key = false ∨ key ∈ reservedTableNames := by
      decide
    rcases hkeys key hkey with hrefused | hreserved
    · have htable := haccepts key hmem
      rw [hrefused] at htable
      cases htable
    · rw [h.tableNames] at hmem
      obtain ⟨table, htable, rfl⟩ := List.mem_map.mp hmem
      exact hfree table htable hreserved
  · intro t ht
    obtain ⟨table, htable, rfl⟩ := List.mem_map.mp ht
    obtain ⟨_, -, hbecomes⟩ := exists_of_mem_right h.tables htable
    exact tableRecord_isLegal hbecomes

/-! ## Schemas -/

theorem ofSchema_eq_ok {s : Schema} {descriptor : Descriptor} : ofSchema s = .ok descriptor ↔
    List.Forall₂ (fun d r => databaseRecord d = .ok r) s.databases descriptor.databases := by
  simp only [ofSchema, bind_eq_ok, mapM_eq_ok, pure_eq_ok]
  constructor
  · rintro ⟨records, hrecords, rfl⟩
    exact hrecords
  · intro h
    exact ⟨_, h, rfl⟩

theorem namespaceName_injective {a b : DatabaseKind} (h : a.namespaceName = b.namespaceName) :
    a = b := by
  revert h
  cases a <;> cases b <;> decide

/-- Databases of one schema have distinct types, hence distinct namespaces. -/
theorem nodup_namespaceNames {d : Document} {s : Schema} (h : d.Becomes s) :
    (s.databases.map (·.kind.namespaceName)).Nodup := by
  have hnames : (s.databases.map (·.kind)).map DatabaseKind.namespaceName =
      s.databases.map (·.kind.namespaceName) := List.map_map
  rw [← hnames]
  exact h.nodup_kinds.map fun _ _ => namespaceName_injective

theorem namespaceNames_ofSchema {s : Schema} {descriptor : Descriptor}
    (h : ofSchema s = .ok descriptor) :
    s.databases.map (·.kind.namespaceName) = descriptor.databases.map (·.namespaceName) := by
  apply map_eq_map_of_forall₂ (ofSchema_eq_ok.mp h)
  intro database r hrecord
  obtain ⟨-, rfl⟩ := databaseRecord_eq_ok.mp hrecord
  rfl

theorem ofSchema_isLegal {d : Document} {s : Schema} {descriptor : Descriptor} (h : d.Becomes s)
    (hd : ofSchema s = .ok descriptor) : descriptor.IsLegal := by
  have hrecords := ofSchema_eq_ok.mp hd
  refine ⟨?_, ?_, ?_⟩
  · intro r hr
    obtain ⟨database, -, hrecord⟩ := exists_of_mem_right hrecords hr
    obtain ⟨-, rfl⟩ := databaseRecord_eq_ok.mp hrecord
    change database.kind.namespaceName = "core" ∨ database.kind.namespaceName = "inst"
    cases database.kind <;> decide
  · exact namespaceNames_ofSchema hd ▸ nodup_namespaceNames h
  · intro r hr
    obtain ⟨database, hdatabase, hrecord⟩ := exists_of_mem_right hrecords hr
    obtain ⟨_, -, hbecomes⟩ := exists_of_mem_right h.databases hdatabase
    exact databaseRecord_isLegal hbecomes hrecord

/-- The text of a descriptor is a module that runs without an error and exports the descriptor: an object
for each database under its namespace, for each table under its name, for each column under its name. -/
theorem text_exports_descriptor {d : Document} {s : Schema} {descriptor : Descriptor}
    (hs : d.compile = .ok s) (hd : ofSchema s = .ok descriptor) :
    (∀ r ∈ descriptor.databases, r.namespaceName = "core" ∨ r.namespaceName = "inst") ∧
      ∃ m heap root, EsModule.read? descriptor.text = some m ∧ m.evaluate = .ok (heap, root) ∧
        descriptor.IsAt heap root := by
  have hlegal := ofSchema_isLegal (Document.compile_eq_ok.mp hs) hd
  obtain ⟨heap, root, hevaluate, hat⟩ := evaluate_toModule hlegal
  exact ⟨hlegal.kinds, descriptor.toModule, heap, root, read?_text hlegal, hevaluate, hat⟩

end Descriptor

/-! ## An enumeration that another database refers to -/

/-- A reference to an enumeration of another database. -/
def Document.enumerated : Document where
  databases := [
    { name := "app", kind := "fixed", tables := [{ name := "users", columns := [
        { name := "state", kind := "code", values := some [⟨.int 1, "OLD"⟩, ⟨.int 0, "NEW"⟩],
          defaultValue := some (.int 0) }] }] },
    { name := "shop", kind := "instance", tables := [{ name := "orders", columns := [
        { name := "owner", kind := "FK", path := some "fixed.users.state" }] }] }]

namespace Schema.Enumerated

def state : Column :=
  ⟨"state", false, some (.integer 0), .code ⟨[⟨⟨1, by decide⟩, "OLD"⟩, ⟨⟨0, by decide⟩, "NEW"⟩]⟩, none⟩

def users : Table := ⟨"users", [state], []⟩

def owner : Column :=
  ⟨"owner", false, none, .integer .tiny true false ⟨0, 255⟩,
    some ⟨"app", true, "users", "state", none⟩⟩

def orders : Table := ⟨"orders", [owner], []⟩

def schema : Schema := ⟨[⟨"app", .core, [users]⟩, ⟨"shop", .tenant, [orders]⟩]⟩

def descriptor : Descriptor :=
  ⟨[⟨"core", "app", [Descriptor.tableRecord users]⟩,
    ⟨"inst", "shop", [Descriptor.tableRecord orders]⟩]⟩

end Schema.Enumerated

theorem Descriptor.text_exports_descriptor_enumerated :
    Document.enumerated.compile = .ok Schema.Enumerated.schema ∧
      Descriptor.ofSchema Schema.Enumerated.schema = .ok Schema.Enumerated.descriptor ∧
      ∃ m heap root, EsModule.read? Schema.Enumerated.descriptor.text = some m ∧
        m.evaluate = .ok (heap, root) ∧ Schema.Enumerated.descriptor.IsAt heap root := by
  have hs : Document.enumerated.compile = .ok Schema.Enumerated.schema := by cbv
  have hd : Descriptor.ofSchema Schema.Enumerated.schema = .ok Schema.Enumerated.descriptor := rfl
  exact ⟨hs, hd, (text_exports_descriptor hs hd).2⟩

end SchemaCompiler
