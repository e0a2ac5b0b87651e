import SchemaCompiler.Proofs.Declaration.RoundTrip
import SchemaCompiler.Proofs.Json.Encoding

/-! # What encodes a declaration

Every declaration may be written as an object or as an array, whatever the shapes of those inside it. The
decoder reads exactly these encodings, apart from null, which it takes for an absent field. -/

namespace SchemaCompiler

open Json

/-! ## Encodings -/

structure CodeDeclaration.Encodes (d : CodeDeclaration) (v : Json) : Prop where
  record : v.IsRecord 2
  code : Required (Is id) d.code (v.field? 0 "code")
  value : Required (Is .string) d.value (v.field? 1 "value")

structure ColumnDeclaration.Encodes (c : ColumnDeclaration) (v : Json) : Prop where
  record : v.IsRecord 16
  name : Required (Is .string) c.name (v.field? 0 "name")
  kind : Required (Is .string) c.kind (v.field? 1 "type")
  nullable : Defaulted (Is .bool) false c.nullable (v.field? 2 "nullable")
  defaultValue : Optional (Is id) c.defaultValue (v.field? 3 "defaultValue")
  size : Optional (Is .string) c.size (v.field? 4 "size")
  unsigned : Defaulted (Is .bool) false c.unsigned (v.field? 5 "unsigned")
  autoIncrement : Defaulted (Is .bool) false c.autoIncrement (v.field? 6 "autoIncrement")
  minValue : Optional (Is id) c.minValue (v.field? 7 "minValue")
  maxValue : Optional (Is id) c.maxValue (v.field? 8 "maxValue")
  minLength : Optional (Is id) c.minLength (v.field? 9 "minLength")
  maxLength : Optional (Is id) c.maxLength (v.field? 10 "maxLength")
  minSize : Optional (Is id) c.minSize (v.field? 11 "minSize")
  maxSize : Optional (Is id) c.maxSize (v.field? 12 "maxSize")
  values : Optional (ListOf CodeDeclaration.Encodes) c.values (v.field? 13 "values")
  path : Optional (Is .string) c.path (v.field? 14 "column")
  onDelete : Optional (Is .string) c.onDelete (v.field? 15 "ondelete")

structure IndexDeclaration.Encodes (i : IndexDeclaration) (v : Json) : Prop where
  record : v.IsRecord 2
  kind : Required (Is .string) i.kind (v.field? 0 "type")
  columns : Defaulted (ListOf (Is .string)) [] i.columns (v.field? 1 "columns")

structure TableDeclaration.Encodes (t : TableDeclaration) (v : Json) : Prop where
  record : v.IsRecord 4
  name : Required (Is .string) t.name (v.field? 0 "name")
  kind : Defaulted (Is .string) "fixed" t.kind (v.field? 1 "type")
  columns : Defaulted (ListOf ColumnDeclaration.Encodes) [] t.columns (v.field? 2 "columns")
  indexes : Defaulted (ListOf IndexDeclaration.Encodes) [] t.indexes (v.field? 3 "indexes")

structure DatabaseDeclaration.Encodes (d : DatabaseDeclaration) (v : Json) : Prop where
  record : v.IsRecord 3
  name : Required (Is .string) d.name (v.field? 0 "name")
  kind : Required (Is .string) d.kind (v.field? 1 "type")
  tables : Defaulted (ListOf TableDeclaration.Encodes) [] d.tables (v.field? 2 "tables")

/-! ## Nulls -/

/-- No field that is kept as it is holds null. -/
structure ColumnDeclaration.NoNulls (c : ColumnDeclaration) : Prop where
  defaultValue : c.defaultValue ≠ some .null
  minValue : c.minValue ≠ some .null
  maxValue : c.maxValue ≠ some .null
  minLength : c.minLength ≠ some .null
  maxLength : c.maxLength ≠ some .null
  minSize : c.minSize ≠ some .null
  maxSize : c.maxSize ≠ some .null

def TableDeclaration.NoNulls (t : TableDeclaration) : Prop :=
  ∀ c ∈ t.columns, c.NoNulls

def DatabaseDeclaration.NoNulls (d : DatabaseDeclaration) : Prop :=
  ∀ t ∈ d.tables, t.NoNulls

/-! ## Records -/

variable {v : Json}

theorem CodeDeclaration.decode?_eq_some {d : CodeDeclaration} : decode? v = some d ↔ d.Encodes v := by
  constructor
  · intro h
    obtain ⟨members, hmembers, h⟩ := Option.bind_eq_some_iff.mp h
    obtain ⟨code, hcode, h⟩ := Option.bind_eq_some_iff.mp h
    obtain ⟨value, hvalue, h⟩ := Option.bind_eq_some_iff.mp h
    obtain rfl := Option.some.inj h
    have hslot := lookup_of_members? (by decide) hmembers
    exact ⟨(isRecord_iff rfl).mpr ⟨members, hmembers⟩,
      (required_iff (hslot 0 _ rfl) fun _ => kept_eq_some).mp hcode,
      (required_iff (hslot 1 _ rfl) fun _ => string?_eq_some).mp hvalue⟩
  · intro h
    obtain ⟨members, hmembers⟩ := (isRecord_iff (rfl : fields.length = 2)).mp h.record
    have hslot := lookup_of_members? (by decide) hmembers
    have hcode := (required_iff (hslot 0 _ rfl) fun _ => kept_eq_some).mpr h.code
    have hvalue := (required_iff (hslot 1 _ rfl) fun _ => string?_eq_some).mpr h.value
    exact bind_of_some hmembers (bind_of_some hcode (bind_of_some hvalue rfl))

theorem IndexDeclaration.decode?_eq_some {i : IndexDeclaration} : decode? v = some i ↔ i.Encodes v := by
  constructor
  · intro h
    obtain ⟨members, hmembers, h⟩ := Option.bind_eq_some_iff.mp h
    obtain ⟨kind, hkind, h⟩ := Option.bind_eq_some_iff.mp h
    obtain ⟨columns, hcolumns, h⟩ := Option.bind_eq_some_iff.mp h
    obtain rfl := Option.some.inj h
    have hslot := lookup_of_members? (by decide) hmembers
    exact ⟨(isRecord_iff rfl).mpr ⟨members, hmembers⟩,
      (required_iff (hslot 0 _ rfl) fun _ => string?_eq_some).mp hkind,
      (defaulted_list_iff (hslot 1 _ rfl) fun _ _ => string?_eq_some).mp hcolumns⟩
  · intro h
    obtain ⟨members, hmembers⟩ := (isRecord_iff (rfl : fields.length = 2)).mp h.record
    have hslot := lookup_of_members? (by decide) hmembers
    have hkind := (required_iff (hslot 0 _ rfl) fun _ => string?_eq_some).mpr h.kind
    have hcolumns := (defaulted_list_iff (hslot 1 _ rfl) fun _ _ => string?_eq_some).mpr h.columns
    exact bind_of_some hmembers (bind_of_some hkind (bind_of_some hcolumns rfl))

theorem ColumnDeclaration.decode?_eq_some_iff {c : ColumnDeclaration} :
    decode? v = some c ↔ c.NoNulls ∧ c.Encodes v := by
  rw [decode?_eq_some]
  constructor
  · rintro ⟨members, hmembers, h⟩
    have hslot := lookup_of_members? (by decide) hmembers
    obtain ⟨hdefaultValue, hdefaultValue'⟩ := (optional_raw_iff (hslot 3 _ rfl)).mp h.defaultValue
    obtain ⟨hminValue, hminValue'⟩ := (optional_raw_iff (hslot 7 _ rfl)).mp h.minValue
    obtain ⟨hmaxValue, hmaxValue'⟩ := (optional_raw_iff (hslot 8 _ rfl)).mp h.maxValue
    obtain ⟨hminLength, hminLength'⟩ := (optional_raw_iff (hslot 9 _ rfl)).mp h.minLength
    obtain ⟨hmaxLength, hmaxLength'⟩ := (optional_raw_iff (hslot 10 _ rfl)).mp h.maxLength
    obtain ⟨hminSize, hminSize'⟩ := (optional_raw_iff (hslot 11 _ rfl)).mp h.minSize
    obtain ⟨hmaxSize, hmaxSize'⟩ := (optional_raw_iff (hslot 12 _ rfl)).mp h.maxSize
    refine ⟨⟨hdefaultValue, hminValue, hmaxValue, hminLength, hmaxLength, hminSize, hmaxSize⟩, ?_⟩
    exact {
      record := (isRecord_iff rfl).mpr ⟨members, hmembers⟩
      name := (required_iff (hslot 0 _ rfl) fun _ => string?_eq_some).mp h.name
      kind := (required_iff (hslot 1 _ rfl) fun _ => string?_eq_some).mp h.kind
      nullable := (defaulted_iff (hslot 2 _ rfl) fun _ _ => bool?_eq_some).mp h.nullable
      defaultValue := hdefaultValue'
      size := (optional_string_iff (hslot 4 _ rfl)).mp h.size
      unsigned := (defaulted_iff (hslot 5 _ rfl) fun _ _ => bool?_eq_some).mp h.unsigned
      autoIncrement := (defaulted_iff (hslot 6 _ rfl) fun _ _ => bool?_eq_some).mp h.autoIncrement
      minValue := hminValue'
      maxValue := hmaxValue'
      minLength := hminLength'
      maxLength := hmaxLength'
      minSize := hminSize'
      maxSize := hmaxSize'
      values := (optional_list_iff (hslot 13 _ rfl) fun _ _ => CodeDeclaration.decode?_eq_some).mp h.values
      path := (optional_string_iff (hslot 14 _ rfl)).mp h.path
      onDelete := (optional_string_iff (hslot 15 _ rfl)).mp h.onDelete }
  · rintro ⟨hne, h⟩
    obtain ⟨members, hmembers⟩ := (isRecord_iff (rfl : fields.length = 16)).mp h.record
    have hslot := lookup_of_members? (by decide) hmembers
    refine ⟨members, hmembers, ?_⟩
    exact {
      name := (required_iff (hslot 0 _ rfl) fun _ => string?_eq_some).mpr h.name
      kind := (required_iff (hslot 1 _ rfl) fun _ => string?_eq_some).mpr h.kind
      nullable := (defaulted_iff (hslot 2 _ rfl) fun _ _ => bool?_eq_some).mpr h.nullable
      defaultValue := (optional_raw_iff (hslot 3 _ rfl)).mpr ⟨hne.defaultValue, h.defaultValue⟩
      size := (optional_string_iff (hslot 4 _ rfl)).mpr h.size
      unsigned := (defaulted_iff (hslot 5 _ rfl) fun _ _ => bool?_eq_some).mpr h.unsigned
      autoIncrement := (defaulted_iff (hslot 6 _ rfl) fun _ _ => bool?_eq_some).mpr h.autoIncrement
      minValue := (optional_raw_iff (hslot 7 _ rfl)).mpr ⟨hne.minValue, h.minValue⟩
      maxValue := (optional_raw_iff (hslot 8 _ rfl)).mpr ⟨hne.maxValue, h.maxValue⟩
      minLength := (optional_raw_iff (hslot 9 _ rfl)).mpr ⟨hne.minLength, h.minLength⟩
      maxLength := (optional_raw_iff (hslot 10 _ rfl)).mpr ⟨hne.maxLength, h.maxLength⟩
      minSize := (optional_raw_iff (hslot 11 _ rfl)).mpr ⟨hne.minSize, h.minSize⟩
      maxSize := (optional_raw_iff (hslot 12 _ rfl)).mpr ⟨hne.maxSize, h.maxSize⟩
      values := (optional_list_iff (hslot 13 _ rfl) fun _ _ => CodeDeclaration.decode?_eq_some).mpr h.values
      path := (optional_string_iff (hslot 14 _ rfl)).mpr h.path
      onDelete := (optional_string_iff (hslot 15 _ rfl)).mpr h.onDelete }

theorem TableDeclaration.decode?_eq_some {t : TableDeclaration} :
    decode? v = some t ↔ t.NoNulls ∧ t.Encodes v := by
  have hcolumns : ∀ w c, ColumnDeclaration.decode? w = some c ↔ c.NoNulls ∧ c.Encodes w :=
    fun _ _ => ColumnDeclaration.decode?_eq_some_iff
  have hindexes : ∀ w i, IndexDeclaration.decode? w = some i ↔ i.Encodes w :=
    fun _ _ => IndexDeclaration.decode?_eq_some
  constructor
  · intro h
    obtain ⟨members, hmembers, h⟩ := Option.bind_eq_some_iff.mp h
    obtain ⟨name, hname, h⟩ := Option.bind_eq_some_iff.mp h
    obtain ⟨kind, hkind, h⟩ := Option.bind_eq_some_iff.mp h
    obtain ⟨columns, hcs, h⟩ := Option.bind_eq_some_iff.mp h
    obtain ⟨indexes, his, h⟩ := Option.bind_eq_some_iff.mp h
    obtain rfl := Option.some.inj h
    have hslot := lookup_of_members? (by decide) hmembers
    obtain ⟨hne, hcs⟩ := defaulted_listOf_iff.mp ((defaulted_list_iff (hslot 2 _ rfl) hcolumns).mp hcs)
    exact ⟨hne, (isRecord_iff rfl).mpr ⟨members, hmembers⟩,
      (required_iff (hslot 0 _ rfl) fun _ => string?_eq_some).mp hname,
      (defaulted_iff (hslot 1 _ rfl) fun _ _ => string?_eq_some).mp hkind, hcs,
      (defaulted_list_iff (hslot 3 _ rfl) hindexes).mp his⟩
  · rintro ⟨hne, h⟩
    obtain ⟨members, hmembers⟩ := (isRecord_iff (rfl : fields.length = 4)).mp h.record
    have hslot := lookup_of_members? (by decide) hmembers
    have hname := (required_iff (hslot 0 _ rfl) fun _ => string?_eq_some).mpr h.name
    have hkind := (defaulted_iff (hslot 1 _ rfl) fun _ _ => string?_eq_some).mpr h.kind
    have hcs := (defaulted_list_iff (hslot 2 _ rfl) hcolumns).mpr
      (defaulted_listOf_iff.mpr ⟨hne, h.columns⟩)
    have his := (defaulted_list_iff (hslot 3 _ rfl) hindexes).mpr h.indexes
    exact bind_of_some hmembers (bind_of_some hname (bind_of_some hkind (bind_of_some hcs
      (bind_of_some his rfl))))

theorem DatabaseDeclaration.decode?_eq_some {d : DatabaseDeclaration} :
    decode? v = some d ↔ d.NoNulls ∧ d.Encodes v := by
  have htables : ∀ w t, TableDeclaration.decode? w = some t ↔ t.NoNulls ∧ t.Encodes w :=
    fun _ _ => TableDeclaration.decode?_eq_some
  constructor
  · intro h
    obtain ⟨members, hmembers, h⟩ := Option.bind_eq_some_iff.mp h
    obtain ⟨name, hname, h⟩ := Option.bind_eq_some_iff.mp h
    obtain ⟨kind, hkind, h⟩ := Option.bind_eq_some_iff.mp h
    obtain ⟨tables, hts, h⟩ := Option.bind_eq_some_iff.mp h
    obtain rfl := Option.some.inj h
    have hslot := lookup_of_members? (by decide) hmembers
    obtain ⟨hne, hts⟩ := defaulted_listOf_iff.mp ((defaulted_list_iff (hslot 2 _ rfl) htables).mp hts)
    exact ⟨hne, (isRecord_iff rfl).mpr ⟨members, hmembers⟩,
      (required_iff (hslot 0 _ rfl) fun _ => string?_eq_some).mp hname,
      (required_iff (hslot 1 _ rfl) fun _ => string?_eq_some).mp hkind, hts⟩
  · rintro ⟨hne, h⟩
    obtain ⟨members, hmembers⟩ := (isRecord_iff (rfl : fields.length = 3)).mp h.record
    have hslot := lookup_of_members? (by decide) hmembers
    have hname := (required_iff (hslot 0 _ rfl) fun _ => string?_eq_some).mpr h.name
    have hkind := (required_iff (hslot 1 _ rfl) fun _ => string?_eq_some).mpr h.kind
    have hts := (defaulted_list_iff (hslot 2 _ rfl) htables).mpr (defaulted_listOf_iff.mpr ⟨hne, h.tables⟩)
    exact bind_of_some hmembers (bind_of_some hname (bind_of_some hkind (bind_of_some hts rfl)))

-- an object inside arrays, and an index that leaves out its columns
example : DatabaseDeclaration.decode? (.array [.string "a", .string "core",
    .array [.object [("note", .null), ("indexes", .array [.array [.string "index"]]),
      ("name", .string "t")]]]) =
    some { name := "a", kind := "core", tables := [{ name := "t", indexes := [{ kind := "index" }] }] } := by
  rfl

/-! ## Values that encode no declaration -/

/-- Where a column may be read at all, it may be read without nulls. -/
theorem ColumnDeclaration.Encodes.exists_noNulls {c : ColumnDeclaration} (h : c.Encodes v) :
    ∃ c' : ColumnDeclaration, c'.NoNulls ∧ c'.Encodes v := by
  obtain ⟨defaultValue, hdefault, hdefault'⟩ := h.defaultValue.exists_ne_null
  obtain ⟨minValue, hminValue, hminValue'⟩ := h.minValue.exists_ne_null
  obtain ⟨maxValue, hmaxValue, hmaxValue'⟩ := h.maxValue.exists_ne_null
  obtain ⟨minLength, hminLength, hminLength'⟩ := h.minLength.exists_ne_null
  obtain ⟨maxLength, hmaxLength, hmaxLength'⟩ := h.maxLength.exists_ne_null
  obtain ⟨minSize, hminSize, hminSize'⟩ := h.minSize.exists_ne_null
  obtain ⟨maxSize, hmaxSize, hmaxSize'⟩ := h.maxSize.exists_ne_null
  refine ⟨{ c with defaultValue, minValue, maxValue, minLength, maxLength, minSize, maxSize },
    ⟨hdefault, hminValue, hmaxValue, hminLength, hmaxLength, hminSize, hmaxSize⟩, ?_⟩
  exact { h with
    defaultValue := hdefault'
    minValue := hminValue'
    maxValue := hmaxValue'
    minLength := hminLength'
    maxLength := hmaxLength'
    minSize := hminSize'
    maxSize := hmaxSize' }

theorem TableDeclaration.Encodes.exists_noNulls {t : TableDeclaration} (h : t.Encodes v) :
    ∃ t' : TableDeclaration, t'.NoNulls ∧ t'.Encodes v := by
  obtain ⟨columns, hne, hcolumns⟩ :=
    h.columns.exists_listOf fun _ _ hc => ColumnDeclaration.Encodes.exists_noNulls hc
  exact ⟨{ t with columns }, hne, { h with columns := hcolumns }⟩

theorem DatabaseDeclaration.Encodes.exists_noNulls {d : DatabaseDeclaration} (h : d.Encodes v) :
    ∃ d' : DatabaseDeclaration, d'.NoNulls ∧ d'.Encodes v := by
  obtain ⟨tables, hne, htables⟩ :=
    h.tables.exists_listOf fun _ _ ht => TableDeclaration.Encodes.exists_noNulls ht
  exact ⟨{ d with tables }, hne, { h with tables := htables }⟩

theorem DatabaseDeclaration.decode?_eq_none : decode? v = none ↔ ∀ d, ¬Encodes d v := by
  constructor
  · intro h d hd
    obtain ⟨d', hd'⟩ := hd.exists_noNulls
    cases h.symm.trans (DatabaseDeclaration.decode?_eq_some.mpr hd')
  · intro h
    cases hdecode : decode? v with
    | none => rfl
    | some d => exact absurd (DatabaseDeclaration.decode?_eq_some.mp hdecode).2 (h d)

-- null stands for an absent field only where the field is optional
example : DatabaseDeclaration.decode? (.object [("name", .string "a"), ("type", .string "core"),
    ("tables", .null)]) = none := by
  rfl

/-! ## Documents -/

namespace Document

/-- How many items stand before the first one that encodes no database. -/
inductive FirstMalformed : List Json → Nat → Prop where
  | here {v rest} (h : ∀ d, ¬DatabaseDeclaration.Encodes d v) : FirstMalformed (v :: rest) 0
  | later {v rest d n} (h : DatabaseDeclaration.Encodes d v) (hrest : FirstMalformed rest n) :
      FirstMalformed (v :: rest) (n + 1)

/-- A text is an array of so many items as a document may have. -/
def Lists [Json.RealReader] (text : String) (items : List Json) : Prop :=
  Json.parse? text = some (.array items) ∧ admitsCount items.length

theorem decodeDatabases_eq_error {items : List Json} {position : Nat} {e : Failure} :
    decodeDatabases position items = .error e ↔
      ∃ n, FirstMalformed items n ∧ e = { subject := .malformedDatabase (position + n) } := by
  induction items generalizing position with
  | nil =>
      simp only [decodeDatabases, reduceCtorEq, false_iff, not_exists, not_and]
      rintro n ⟨⟩
  | cons v items ih =>
      rw [decodeDatabases]
      cases hv : DatabaseDeclaration.decode? v with
      | none =>
          have hmalformed := DatabaseDeclaration.decode?_eq_none.mp hv
          rw [Except.error.injEq]
          constructor
          · rintro rfl
            exact ⟨0, .here hmalformed, rfl⟩
          · rintro ⟨_, _ | ⟨h, -⟩, rfl⟩
            · rfl
            · exact absurd h (hmalformed _)
      | some d =>
          have hd := (DatabaseDeclaration.decode?_eq_some.mp hv).2
          simp only [bind_eq_error, pure_eq_error, and_false, exists_false, or_false, ih]
          constructor
          · rintro ⟨n, hn, rfl⟩
            exact ⟨n + 1, .later hd hn, by rw [Nat.add_right_comm, Nat.add_assoc]⟩
          · rintro ⟨_, h | ⟨-, hn⟩, rfl⟩
            · exact absurd hd (h d)
            · exact ⟨_, hn, by rw [Nat.add_right_comm, Nat.add_assoc]⟩

theorem Lists.parse_eq [Json.RealReader] {text : String} {items : List Json} (h : Lists text items) :
    parse text = do return ⟨← decodeDatabases 1 items⟩ := by
  simp only [parse, h.1, ofJson, if_pos h.2]

/-- A text that lists no databases is refused as a whole. -/
theorem lists_or_refused [Json.RealReader] (text : String) : (∃ items, Lists text items) ∨
    ∃ f, parse text = .error { subject := f } ∧ ∀ position, f ≠ .malformedDatabase position := by
  cases hparse : Json.parse? text with
  | none => exact .inr ⟨.invalidJson, by simp [parse, hparse], by simp⟩
  | some v =>
      cases v with
      | null | bool | number | string | object =>
          exact .inr ⟨.documentNotArray, by simp [parse, hparse, ofJson], by simp⟩
      | array items =>
          by_cases hcount : admitsCount items.length
          · exact .inl ⟨items, hparse, hcount⟩
          · exact .inr ⟨.databaseCount items.length, by simp [parse, hparse, ofJson, hcount], by simp⟩

theorem parse_eq_ok [Json.RealReader] {text : String} {d : Document} : parse text = .ok d ↔
    ∃ items, Lists text items ∧
      List.Forall₂ (fun v d => DatabaseDeclaration.decode? v = some d) items d.databases := by
  constructor
  · intro h
    rcases lists_or_refused text with ⟨items, hitems⟩ | ⟨f, hf, -⟩
    · rw [hitems.parse_eq, bind_eq_ok] at h
      obtain ⟨ds, hds, heq⟩ := h
      obtain rfl := pure_eq_ok.mp heq
      exact ⟨items, hitems, decodeDatabases_eq_ok.mp hds⟩
    · cases h.symm.trans hf
  · rintro ⟨items, hitems, hds⟩
    rw [hitems.parse_eq, decodeDatabases_eq_ok.mpr hds]
    rfl

theorem parse_eq_malformed [Json.RealReader] {text : String} {position : Nat} :
    parse text = .error { subject := .malformedDatabase position } ↔
      ∃ items n, Lists text items ∧ FirstMalformed items n ∧ position = n + 1 := by
  have hitems {items : List Json} (h : Lists text items) :
      parse text = .error { subject := .malformedDatabase position } ↔
        ∃ n, FirstMalformed items n ∧ position = n + 1 := by
    simp only [h.parse_eq, bind_eq_error, pure_eq_error, and_false, exists_false, or_false,
      decodeDatabases_eq_error, Nat.add_comm 1]
    simp
  constructor
  · intro h
    rcases lists_or_refused text with ⟨items, hlists⟩ | ⟨f, hf, hne⟩
    · obtain ⟨n, hn, hposition⟩ := (hitems hlists).mp h
      exact ⟨items, n, hlists, hn, hposition⟩
    · cases h.symm.trans hf
      exact absurd rfl (hne position)
  · rintro ⟨items, n, hlists, hn, hposition⟩
    exact (hitems hlists).mpr ⟨n, hn, hposition⟩

/-- The decoder accepts exactly the encodings of declarations, and names the first database that is none. -/
theorem decodes_encodings [Json.RealReader] :
    (∀ v d, DatabaseDeclaration.decode? v = some d ↔ d.NoNulls ∧ d.Encodes v) ∧
    (∀ v, DatabaseDeclaration.decode? v = none ↔ ∀ d, ¬DatabaseDeclaration.Encodes d v) ∧
    (∀ text document, parse text = .ok document ↔ ∃ items, Lists text items ∧
      List.Forall₂ (fun v d => d.NoNulls ∧ d.Encodes v) items document.databases) ∧
    (∀ text position, parse text = .error { subject := .malformedDatabase position } ↔
      ∃ items n, Lists text items ∧ FirstMalformed items n ∧ position = n + 1) ∧
    ∀ position, Fault.message (.malformedDatabase position) =
      "database #" ++ toString position ++ " is malformed" := by
  refine ⟨fun _ _ => DatabaseDeclaration.decode?_eq_some, fun _ => DatabaseDeclaration.decode?_eq_none,
    fun _ _ => ?_, fun _ _ => parse_eq_malformed, fun _ => rfl⟩
  simp only [parse_eq_ok, DatabaseDeclaration.decode?_eq_some]

end Document

end SchemaCompiler
