import SchemaCompiler.Declaration.Decoder
import SchemaCompiler.Declaration.Encoder
import SchemaCompiler.Proofs.Json.Reader
import SchemaCompiler.Proofs.Json.Record

/-! # Documents are read back

A document is written as objects with their fields by name, however its text had them. What the reader
gives can be stored wherever a declaration keeps a value as it is, and a declaration of such values is
read back field by field. Only the empty lists that stand for missing ones nest deeper than what was read,
and the bound on nesting leaves room for them. -/

namespace SchemaCompiler

open Json

/-! ## Declarations that can be written -/

variable {P : Binary64 → Prop} {depth : Nat}

/-- A value that is missing, or counts as present when it is read: null would count as missing. -/
def Json.Present (P : Binary64 → Prop) (depth : Nat) (x : Option Json) : Prop :=
  ∀ v, x = some v → v ≠ .null ∧ v.Storable P depth

structure ColumnDeclaration.Storable (P : Binary64 → Prop) (depth : Nat) (c : ColumnDeclaration) :
    Prop where
  defaultValue : Json.Present P depth c.defaultValue
  minValue : Json.Present P depth c.minValue
  maxValue : Json.Present P depth c.maxValue
  minLength : Json.Present P depth c.minLength
  maxLength : Json.Present P depth c.maxLength
  minSize : Json.Present P depth c.minSize
  maxSize : Json.Present P depth c.maxSize
  values : ∀ ds, c.values = some ds → (Json.ofList CodeDeclaration.encode ds).Storable P depth

theorem Json.Present.optional {x : Option Json} (hx : Present P depth x)
    {members : List (String × Json)} {key : String} (hlookup : members.lookup key = x.map id) :
    Json.optional members key some = some x :=
  optional_of_lookup hlookup fun v hv => ⟨(hx v hv).1, rfl⟩

theorem Json.Present.of_optional {members : List (String × Json)} {key : String}
    {x : Option Json} (hvalues : ∀ member ∈ members, member.2.Storable P depth)
    (h : Json.optional members key some = some x) : Present P depth x := by
  intro v hx
  obtain ⟨w, hw, hnull, hread⟩ := exists_of_optional hvalues h hx
  cases hread
  exact ⟨hnull, hw⟩

/-! ## Enumerations -/

theorem CodeDeclaration.decode?_encode (d : CodeDeclaration) : decode? d.encode = some d := by
  have hmembers : d.encode.members? fields = some d.members := rfl
  have hcode : required d.members "code" some = some d.code := rfl
  have hvalue : required d.members "value" string? = some d.value := rfl
  simp [decode?, hmembers, hcode, hvalue]

theorem CodeDeclaration.readsBack (depth : Nat) : ReadsBack P depth decode? encode := by
  intro v d hv h
  refine ⟨?_, d.decode?_encode⟩
  obtain ⟨members, hmembers, h⟩ := Option.bind_eq_some_iff.mp h
  obtain ⟨code, hcode, h⟩ := Option.bind_eq_some_iff.mp h
  obtain ⟨value, hvalue, h⟩ := Option.bind_eq_some_iff.mp h
  obtain rfl := Option.some.inj h
  obtain ⟨inner, rfl, hinner⟩ := storable_of_members? hv hmembers
  obtain ⟨w, hw, hread⟩ := exists_of_required hinner hcode
  cases hread
  refine .object (by decide : fields.Nodup) ?_
  simp only [CodeDeclaration.members, List.forall_mem_cons]
  exact ⟨hw, .string, List.forall_mem_nil _⟩

/-! ## Columns -/

namespace ColumnDeclaration

variable {c : ColumnDeclaration}

/-- What the fields of a column are read as. -/
structure Reads (members : List (String × Json)) (c : ColumnDeclaration) : Prop where
  name : required members "name" string? = some c.name
  kind : required members "type" string? = some c.kind
  nullable : defaulted members "nullable" bool? false = some c.nullable
  defaultValue : optional members "defaultValue" some = some c.defaultValue
  size : optional members "size" string? = some c.size
  unsigned : defaulted members "unsigned" bool? false = some c.unsigned
  autoIncrement : defaulted members "autoIncrement" bool? false = some c.autoIncrement
  minValue : optional members "minValue" some = some c.minValue
  maxValue : optional members "maxValue" some = some c.maxValue
  minLength : optional members "minLength" some = some c.minLength
  maxLength : optional members "maxLength" some = some c.maxLength
  minSize : optional members "minSize" some = some c.minSize
  maxSize : optional members "maxSize" some = some c.maxSize
  values : optional members "values" (list? CodeDeclaration.decode?) = some c.values
  path : optional members "column" string? = some c.path
  onDelete : optional members "ondelete" string? = some c.onDelete

theorem decode?_eq_some {v : Json} : decode? v = some c ↔
    ∃ members, v.members? fields = some members ∧ Reads members c := by
  constructor
  · intro h
    obtain ⟨members, hmembers, h⟩ := Option.bind_eq_some_iff.mp h
    obtain ⟨_, hname, h⟩ := Option.bind_eq_some_iff.mp h
    obtain ⟨_, hkind, h⟩ := Option.bind_eq_some_iff.mp h
    obtain ⟨_, hnullable, h⟩ := Option.bind_eq_some_iff.mp h
    obtain ⟨_, hdefaultValue, h⟩ := Option.bind_eq_some_iff.mp h
    obtain ⟨_, hsize, h⟩ := Option.bind_eq_some_iff.mp h
    obtain ⟨_, hunsigned, h⟩ := Option.bind_eq_some_iff.mp h
    obtain ⟨_, hautoIncrement, h⟩ := Option.bind_eq_some_iff.mp h
    obtain ⟨_, hminValue, h⟩ := Option.bind_eq_some_iff.mp h
    obtain ⟨_, hmaxValue, h⟩ := Option.bind_eq_some_iff.mp h
    obtain ⟨_, hminLength, h⟩ := Option.bind_eq_some_iff.mp h
    obtain ⟨_, hmaxLength, h⟩ := Option.bind_eq_some_iff.mp h
    obtain ⟨_, hminSize, h⟩ := Option.bind_eq_some_iff.mp h
    obtain ⟨_, hmaxSize, h⟩ := Option.bind_eq_some_iff.mp h
    obtain ⟨_, hvalues, h⟩ := Option.bind_eq_some_iff.mp h
    obtain ⟨_, hpath, h⟩ := Option.bind_eq_some_iff.mp h
    obtain ⟨_, honDelete, h⟩ := Option.bind_eq_some_iff.mp h
    obtain rfl := Option.some.inj h
    exact ⟨members, hmembers, hname, hkind, hnullable, hdefaultValue, hsize, hunsigned, hautoIncrement,
      hminValue, hmaxValue, hminLength, hmaxLength, hminSize, hmaxSize, hvalues, hpath, honDelete⟩
  · rintro ⟨members, hmembers, h⟩
    refine bind_of_some hmembers ?_
    refine bind_of_some h.name ?_
    refine bind_of_some h.kind ?_
    refine bind_of_some h.nullable ?_
    refine bind_of_some h.defaultValue ?_
    refine bind_of_some h.size ?_
    refine bind_of_some h.unsigned ?_
    refine bind_of_some h.autoIncrement ?_
    refine bind_of_some h.minValue ?_
    refine bind_of_some h.maxValue ?_
    refine bind_of_some h.minLength ?_
    refine bind_of_some h.maxLength ?_
    refine bind_of_some h.minSize ?_
    refine bind_of_some h.maxSize ?_
    refine bind_of_some h.values ?_
    refine bind_of_some h.path ?_
    refine bind_of_some h.onDelete ?_
    rfl

/-- Each field of a column is written under its own key. -/
structure Writes (members : List (String × Json)) (c : ColumnDeclaration) : Prop where
  name : members.lookup "name" = some (.string c.name)
  kind : members.lookup "type" = some (.string c.kind)
  nullable : members.lookup "nullable" = some (.bool c.nullable)
  defaultValue : members.lookup "defaultValue" = c.defaultValue.map id
  size : members.lookup "size" = c.size.map .string
  unsigned : members.lookup "unsigned" = some (.bool c.unsigned)
  autoIncrement : members.lookup "autoIncrement" = some (.bool c.autoIncrement)
  minValue : members.lookup "minValue" = c.minValue.map id
  maxValue : members.lookup "maxValue" = c.maxValue.map id
  minLength : members.lookup "minLength" = c.minLength.map id
  maxLength : members.lookup "maxLength" = c.maxLength.map id
  minSize : members.lookup "minSize" = c.minSize.map id
  maxSize : members.lookup "maxSize" = c.maxSize.map id
  values : members.lookup "values" = c.values.map (Json.ofList CodeDeclaration.encode)
  path : members.lookup "column" = c.path.map .string
  onDelete : members.lookup "ondelete" = c.onDelete.map .string

theorem writes (c : ColumnDeclaration) : Writes c.members c := by
  constructor <;> simp [members, List.lookup_append, lookup_cons, lookup_optionalMember]

theorem Writes.reads {members : List (String × Json)} (hw : Writes members c) (h : c.Storable P depth) :
    Reads members c where
  name := required_of_lookup hw.name rfl
  kind := required_of_lookup hw.kind rfl
  nullable := defaulted_of_lookup hw.nullable rfl
  defaultValue := h.defaultValue.optional hw.defaultValue
  size := optional_string hw.size
  unsigned := defaulted_of_lookup hw.unsigned rfl
  autoIncrement := defaulted_of_lookup hw.autoIncrement rfl
  minValue := h.minValue.optional hw.minValue
  maxValue := h.maxValue.optional hw.maxValue
  minLength := h.minLength.optional hw.minLength
  maxLength := h.maxLength.optional hw.maxLength
  minSize := h.minSize.optional hw.minSize
  maxSize := h.maxSize.optional hw.maxSize
  values := optional_of_lookup hw.values
    fun _ _ => ⟨by simp [ofList], list?_ofList fun d _ => d.decode?_encode⟩
  path := optional_string hw.path
  onDelete := optional_string hw.onDelete

theorem decode?_encode (h : c.Storable P depth) : decode? c.encode = some c :=
  decode?_eq_some.mpr ⟨c.members, rfl, c.writes.reads h⟩

/-- What is kept of a column that was read lies one level deeper than the column. -/
theorem exists_storable {v : Json} (hv : v.Storable P depth) (h : decode? v = some c) :
    ∃ inner, depth = inner + 1 ∧ c.Storable P inner := by
  obtain ⟨members, hmembers, hr⟩ := decode?_eq_some.mp h
  obtain ⟨inner, rfl, hvalues⟩ := storable_of_members? hv hmembers
  refine ⟨inner, rfl, .of_optional hvalues hr.defaultValue, .of_optional hvalues hr.minValue,
    .of_optional hvalues hr.maxValue, .of_optional hvalues hr.minLength, .of_optional hvalues hr.maxLength,
    .of_optional hvalues hr.minSize, .of_optional hvalues hr.maxSize, ?_⟩
  intro ds hds
  obtain ⟨w, hw, _, hlist⟩ := exists_of_optional hvalues hr.values hds
  obtain ⟨item, rfl, _⟩ := exists_of_list? hw hlist
  exact ((CodeDeclaration.readsBack item).list? w ds hw hlist).1

theorem storable_encode (h : c.Storable P depth) : c.encode.Storable P (depth + 1) := by
  refine .object (List.Nodup.sublist ?_ (by decide : fields.Nodup)) ?_
  · simp only [members, List.map_append]
    exact (((((((((((((List.Sublist.refl ["name", "type", "nullable"]).append (keys_optionalMember _)).append
      (keys_optionalMember _)).append (List.Sublist.refl ["unsigned", "autoIncrement"])).append
      (keys_optionalMember _)).append (keys_optionalMember _)).append (keys_optionalMember _)).append
      (keys_optionalMember _)).append (keys_optionalMember _)).append (keys_optionalMember _)).append
      (keys_optionalMember _)).append (keys_optionalMember _)).append (keys_optionalMember _))
  · have hstring : ∀ (key : String) (x : Option String),
        ∀ member ∈ optionalMember key .string x, member.2.Storable P depth :=
      fun key x => forall_optionalMember fun _ _ => .string
    have hraw : ∀ (key : String) (x : Option Json), Present P depth x →
        ∀ member ∈ optionalMember key id x, member.2.Storable P depth :=
      fun key x hx => forall_optionalMember fun v hv => (hx v hv).2
    have hscalars : ∀ member ∈ [("name", Json.string c.name), ("type", .string c.kind),
        ("nullable", .bool c.nullable)], member.2.Storable P depth := by simp [Json.Storable.string, Json.Storable.bool]
    have hflags : ∀ member ∈ [("unsigned", Json.bool c.unsigned), ("autoIncrement", .bool c.autoIncrement)],
        member.2.Storable P depth := by simp [Json.Storable.bool]
    simp only [members, List.forall_mem_append, and_assoc]
    exact ⟨hscalars, hraw _ _ h.defaultValue, hstring _ _, hflags, hraw _ _ h.minValue, hraw _ _ h.maxValue,
      hraw _ _ h.minLength, hraw _ _ h.maxLength, hraw _ _ h.minSize, hraw _ _ h.maxSize,
      forall_optionalMember h.values, hstring _ _, hstring _ _⟩

theorem readsBack (depth : Nat) : ReadsBack P depth decode? encode := by
  intro v c hv h
  obtain ⟨inner, rfl, hc⟩ := exists_storable hv h
  exact ⟨storable_encode hc, decode?_encode hc⟩

end ColumnDeclaration

/-! ## Indexes, tables and databases

Each of these is written with its lists, also where they were left out, so that it may need some levels
that it did not have: `2` for an index, and `2` more for what contains it. -/

theorem IndexDeclaration.decode?_encode (i : IndexDeclaration) : decode? i.encode = some i := by
  have hmembers : i.encode.members? fields = some i.members := rfl
  have hkind : required i.members "type" string? = some i.kind := rfl
  have hcolumns : defaulted i.members "columns" (list? string?) [] = some i.columns :=
    defaulted_of_lookup rfl (list?_ofList fun _ _ => rfl)
  simp [decode?, hmembers, hkind, hcolumns]

theorem IndexDeclaration.readsBack (depth : Nat) : ReadsBack P (depth + 2) decode? encode := by
  intro v i hv h
  refine ⟨?_, i.decode?_encode⟩
  obtain ⟨members, hmembers, h⟩ := Option.bind_eq_some_iff.mp h
  obtain ⟨kind, hkind, h⟩ := Option.bind_eq_some_iff.mp h
  obtain ⟨columns, hcolumns, h⟩ := Option.bind_eq_some_iff.mp h
  obtain rfl := Option.some.inj h
  refine .object (by decide : fields.Nodup) ?_
  simp only [IndexDeclaration.members, List.forall_mem_cons]
  exact ⟨.string, storable_ofList fun _ _ => .string, List.forall_mem_nil _⟩

theorem TableDeclaration.decode?_encode {t : TableDeclaration}
    (h : list? ColumnDeclaration.decode? (ofList ColumnDeclaration.encode t.columns) = some t.columns) :
    decode? t.encode = some t := by
  have hmembers : t.encode.members? fields = some t.members := rfl
  have hname : required t.members "name" string? = some t.name := rfl
  have hkind : defaulted t.members "type" string? fixedKind = some t.kind := rfl
  have hcolumns : defaulted t.members "columns" (list? ColumnDeclaration.decode?) [] = some t.columns :=
    defaulted_of_lookup rfl h
  have hindexes : defaulted t.members "indexes" (list? IndexDeclaration.decode?) [] = some t.indexes :=
    defaulted_of_lookup rfl (list?_ofList fun i _ => i.decode?_encode)
  simp [decode?, hmembers, hname, hkind, hcolumns, hindexes]

theorem TableDeclaration.readsBack (depth : Nat) : ReadsBack P (depth + 4) decode? encode := by
  intro v t hv h
  obtain ⟨members, hmembers, h⟩ := Option.bind_eq_some_iff.mp h
  obtain ⟨name, hname, h⟩ := Option.bind_eq_some_iff.mp h
  obtain ⟨kind, hkind, h⟩ := Option.bind_eq_some_iff.mp h
  obtain ⟨columns, hcolumns, h⟩ := Option.bind_eq_some_iff.mp h
  obtain ⟨indexes, hindexes, h⟩ := Option.bind_eq_some_iff.mp h
  obtain rfl := Option.some.inj h
  obtain ⟨inner, hinner, hvalues⟩ := storable_of_members? hv hmembers
  obtain rfl := Nat.succ_injective hinner
  obtain ⟨hcolumnsStored, hcolumnsRead⟩ :=
    (ColumnDeclaration.readsBack (depth + 2)).defaulted_list? hvalues hcolumns
  obtain ⟨hindexesStored, -⟩ := (IndexDeclaration.readsBack depth).defaulted_list? hvalues hindexes
  refine ⟨.object (by decide : fields.Nodup) ?_, decode?_encode hcolumnsRead⟩
  simp only [TableDeclaration.members, List.forall_mem_cons]
  exact ⟨.string, .string, hcolumnsStored, hindexesStored, List.forall_mem_nil _⟩

theorem DatabaseDeclaration.decode?_encode {d : DatabaseDeclaration}
    (h : list? TableDeclaration.decode? (ofList TableDeclaration.encode d.tables) = some d.tables) :
    decode? d.encode = some d := by
  have hmembers : d.encode.members? fields = some d.members := rfl
  have hname : required d.members "name" string? = some d.name := rfl
  have hkind : required d.members "type" string? = some d.kind := rfl
  have htables : defaulted d.members "tables" (list? TableDeclaration.decode?) [] = some d.tables :=
    defaulted_of_lookup rfl h
  simp [decode?, hmembers, hname, hkind, htables]

theorem DatabaseDeclaration.readsBack (depth : Nat) : ReadsBack P (depth + 6) decode? encode := by
  intro v d hv h
  obtain ⟨members, hmembers, h⟩ := Option.bind_eq_some_iff.mp h
  obtain ⟨name, hname, h⟩ := Option.bind_eq_some_iff.mp h
  obtain ⟨kind, hkind, h⟩ := Option.bind_eq_some_iff.mp h
  obtain ⟨tables, htables, h⟩ := Option.bind_eq_some_iff.mp h
  obtain rfl := Option.some.inj h
  obtain ⟨inner, hinner, hvalues⟩ := storable_of_members? hv hmembers
  obtain rfl := Nat.succ_injective hinner
  obtain ⟨hstored, hread⟩ := (TableDeclaration.readsBack depth).defaulted_list? hvalues htables
  refine ⟨.object (by decide : fields.Nodup) ?_, decode?_encode hread⟩
  simp only [DatabaseDeclaration.members, List.forall_mem_cons]
  exact ⟨.string, .string, hstored, List.forall_mem_nil _⟩

/-! ## Documents -/

namespace Document

/-- Databases are read without a fault where each of them is one. -/
theorem decodeDatabases_eq_ok {position : Nat} {items : List Json} {ds : List DatabaseDeclaration} :
    decodeDatabases position items = .ok ds ↔
      List.Forall₂ (fun v d => DatabaseDeclaration.decode? v = some d) items ds := by
  induction items generalizing position ds with
  | nil =>
      rw [decodeDatabases, Except.ok.injEq, List.forall₂_nil_left_iff]
      exact eq_comm
  | cons v items ih =>
      rw [decodeDatabases, List.forall₂_cons_left_iff]
      cases hv : DatabaseDeclaration.decode? v with
      | none => simp
      | some d =>
          simp only [bind_eq_ok, pure_eq_ok, ih, Option.some.injEq]
          constructor
          · rintro ⟨ds', hds', rfl⟩
            exact ⟨d, ds', rfl, hds', rfl⟩
          · rintro ⟨_, ds', rfl, hds', rfl⟩
            exact ⟨ds', hds', rfl⟩

/-- A document is a list of databases, as many as it may have. -/
theorem ofJson_eq_ok {v : Json} {d : Document} : ofJson v = .ok d ↔
    admitsCount d.databases.length ∧ list? DatabaseDeclaration.decode? v = some d.databases := by
  cases v with
  | null | bool | number | string | object => simp [ofJson, list?]
  | array items =>
      rw [ofJson, list?, mapM_eq_some]
      constructor
      · intro h
        split at h
        · next hcount =>
            obtain ⟨ds, hds, heq⟩ := bind_eq_ok.mp h
            obtain rfl := pure_eq_ok.mp heq
            rw [decodeDatabases_eq_ok] at hds
            exact ⟨hds.length_eq ▸ hcount, hds⟩
        · cases h
      · rintro ⟨hcount, hds⟩
        rw [if_pos (hds.length_eq ▸ hcount), decodeDatabases_eq_ok.mpr hds]
        rfl

/-- A document that was read from a text is written within the depth that the reader admits, and is read
back from what is written. -/
theorem encode_of_parse [RealReader] {text : String} {d : Document} (h : parse text = .ok d) :
    d.encode.Storable (fun _ => True) maxDepth ∧ ofJson d.encode = .ok d := by
  unfold parse at h
  split at h
  · cases h
  · next v hv =>
      obtain ⟨hcount, hdatabases⟩ := ofJson_eq_ok.mp h
      have hback : ReadsBack (fun _ => True) maxDepth (list? DatabaseDeclaration.decode?)
          (ofList DatabaseDeclaration.encode) :=
        (DatabaseDeclaration.readsBack 120).list?
      obtain ⟨hstored, hread⟩ := hback v d.databases (storable_of_parse? hv) hdatabases
      exact ⟨hstored, ofJson_eq_ok.mpr ⟨hcount, hread⟩⟩

/-- A document that was read from a text is read back from the text that it is written as, whatever way of
reading doubles is taken, as long as it restores those that the document keeps. -/
theorem parse_text [RealReader] {text : String} {d : Document} (h : parse text = .ok d)
    (hreals : ∀ x ∈ d.encode.reals, IsRestored x) : parse d.text = .ok d := by
  obtain ⟨hstored, hread⟩ := encode_of_parse h
  have hparse : parse? d.text = some d.encode := parse?_compact (hstored.of_reals hreals)
  rw [parse, hparse]
  exact hread

/-- A text of which one record has named fields, one of them twice, and the others stand in order. -/
def positional : String :=
  "[[\"\\u0061\", \"core\", [[\"t\", \"fixed\", [\x7b\"type\": \"enum\", \"name\": 1, \"name\": \"c\", \"size\": null, " ++
    "\"note\": 0, \"defaultValue\": [2.50], \"values\": [[null, \"-\"]]\x7d]]]]]"

/-- What `positional` is written as. -/
def named : String :=
  "[\x7b\"name\":\"a\",\"type\":\"core\",\"tables\":[\x7b\"name\":\"t\",\"type\":\"fixed\",\"columns\":[" ++
    "\x7b\"name\":\"c\",\"type\":\"enum\",\"nullable\":false,\"defaultValue\":[2.5],\"unsigned\":false," ++
    "\"autoIncrement\":false,\"values\":[\x7b\"code\":null,\"value\":\"-\"\x7d]\x7d],\"indexes\":[]\x7d]\x7d]"

theorem parse_text_positional : ∃ d, parse positional = .ok d ∧ (∀ x ∈ d.encode.reals, IsRestored x) ∧
    d.text = named ∧ parse named = .ok d := by
  have hreads : (parse positional).toOption.map (fun d => (d.text, decide (∀ x ∈ d.encode.reals, IsRestored x)))
      = some (named, true) := by decide +kernel
  obtain ⟨d, hd, hpair⟩ := Option.map_eq_some_iff.mp hreads
  obtain ⟨hnamed, hreals⟩ := Prod.mk.inj hpair
  have hparse : parse positional = .ok d := eq_ok_of_toOption hd
  have hrestored : ∀ x ∈ d.encode.reals, IsRestored x := of_decide_eq_true hreals
  exact ⟨d, hparse, hrestored, hnamed, hnamed ▸ parse_text hparse hrestored⟩

end Document

end SchemaCompiler
