import SchemaCompiler.Proofs.Json.Reader
import SchemaCompiler.Proofs.Json.Record
import SchemaCompiler.Schema.Decoder

/-! # Compiled schemas are read back

A compiled schema is the same schema when its JSON form is read, whether or not a document could have
been compiled to it. Every part is read from the members that it was written as, and none of them nests
too deep for the reader. -/

namespace SchemaCompiler

open Json

/-! ## Words -/

/-- A word is read as the only value that it is written for. -/
theorem word?_token {α : Type} {all : List α} {token : α → String} {a : α}
    (hfind : all.find? (token · = token a) = some a) : word? all token (.string (token a)) = some a :=
  hfind

theorem IntegerSize.decode?_token (size : IntegerSize) : decode? (.string size.token) = some size :=
  word?_token (by cases size <;> rfl)

theorem ColumnKind.word?_token (kind : ColumnKind) : word? all token (.string kind.token) = some kind :=
  SchemaCompiler.word?_token (by cases kind <;> rfl)

theorem OnDelete.decode?_encode (action : OnDelete) : decode? action.encode = some action :=
  word?_token (by cases action <;> rfl)

theorem IndexKind.word?_token (kind : IndexKind) : word? all token (.string kind.token) = some kind :=
  SchemaCompiler.word?_token (by cases kind <;> rfl)

theorem DatabaseKind.word?_token (kind : DatabaseKind) :
    word? all token (.string kind.token) = some kind :=
  SchemaCompiler.word?_token (by cases kind <;> rfl)

/-! ## Columns -/

theorem Bounds.decode?_encode (b : Bounds) : decode? b.encode = some b := by
  have hmembers : b.encode.object? = some b.members := rfl
  have hmin : required b.members "min" int? = some b.min := required_of_lookup rfl (int?_int b.min)
  have hmax : required b.members "max" int? = some b.max := required_of_lookup rfl (int?_int b.max)
  simp [decode?, hmembers, hmin, hmax]

theorem codeNumber?_nat (code : Fin 256) : codeNumber? (.nat code) = some code := by
  have hfits : Word64.fitsUnsigned (code : Nat) :=
    Word64.fitsUnsigned_iff.mpr (Nat.lt_trans code.isLt (by decide))
  simp [codeNumber?, nat?_nat hfits]

theorem CodeValue.decode?_encode (v : CodeValue) : decode? v.encode = some v := by
  have hmembers : v.encode.object? = some v.members := rfl
  have hcode : required v.members "code" codeNumber? = some v.code :=
    required_of_lookup rfl (codeNumber?_nat v.code)
  have hname : required v.members "name" string? = some v.name := rfl
  simp [decode?, hmembers, hcode, hname]

theorem DefaultValue.decode?_encode (v : DefaultValue) : decode? v.encode = some v := by
  cases v with
  | integer n => simp [decode?, encode, int?_int]
  | empty => rfl
  | hex digits => rfl

/-- The kind of a type tells which members were written beside it. -/
theorem ColumnType.decode?_encode (t : ColumnType) : decode? t.encode = some t := by
  have hmembers : t.encode.object? = some t.members := rfl
  have hkind : required t.members "type" (word? ColumnKind.all ColumnKind.token) = some t.kind :=
    required_of_lookup rfl t.kind.word?_token
  generalize hm : t.members = m at hmembers hkind
  cases t with
  | integer size unsigned autoIncrement bounds =>
      have hsize : required m "size" IntegerSize.decode? = some size :=
        required_of_lookup (hm ▸ rfl) size.decode?_token
      have hunsigned : required m "unsigned" bool? = some unsigned := by rw [← hm]; rfl
      have hautoIncrement : required m "auto_increment" bool? = some autoIncrement := by rw [← hm]; rfl
      have hbounds : required m "bounds" Bounds.decode? = some bounds :=
        required_of_lookup (hm ▸ rfl) bounds.decode?_encode
      simp [decode?, hmembers, hkind, kind, hsize, hunsigned, hautoIncrement, hbounds]
  | serial size bounds =>
      have hsize : required m "size" IntegerSize.decode? = some size :=
        required_of_lookup (hm ▸ rfl) size.decode?_token
      have hbounds : required m "bounds" Bounds.decode? = some bounds :=
        required_of_lookup (hm ▸ rfl) bounds.decode?_encode
      simp [decode?, hmembers, hkind, kind, hsize, hbounds]
  | timestamp unsigned bounds =>
      have hunsigned : required m "unsigned" bool? = some unsigned := by rw [← hm]; rfl
      have hbounds : required m "bounds" Bounds.decode? = some bounds :=
        required_of_lookup (hm ▸ rfl) bounds.decode?_encode
      simp [decode?, hmembers, hkind, kind, hunsigned, hbounds]
  | string minLength maxLength =>
      have hmin : optional m "min_length" int? = some minLength :=
        optional_orNull (hm ▸ rfl) rfl fun n _ => int?_int n
      have hmax : required m "max_length" int? = some maxLength :=
        required_of_lookup (hm ▸ rfl) (int?_int maxLength)
      simp [decode?, hmembers, hkind, kind, hmin, hmax]
  | binary minSize maxSize =>
      have hmin : required m "min_size" int? = some minSize :=
        required_of_lookup (hm ▸ rfl) (int?_int minSize)
      have hmax : required m "max_size" int? = some maxSize :=
        required_of_lookup (hm ▸ rfl) (int?_int maxSize)
      simp [decode?, hmembers, hkind, kind, hmin, hmax]
  | boolean => simp [decode?, hmembers, hkind, kind]
  | code domain =>
      have hvalues : required m "values" (list? CodeValue.decode?) = some domain.values :=
        required_of_lookup (hm ▸ rfl) (list?_ofList fun v _ => v.decode?_encode)
      simp [decode?, hmembers, hkind, kind, hvalues]

theorem ForeignKey.decode?_encode (fk : ForeignKey) : decode? fk.encode = some fk := by
  have hmembers : fk.encode.object? = some fk.members := rfl
  have hdatabase : required fk.members "database" string? = some fk.database := rfl
  have hcrossDatabase : required fk.members "cross_database" bool? = some fk.crossDatabase := rfl
  have htable : required fk.members "table" string? = some fk.table := rfl
  have hcolumn : required fk.members "column" string? = some fk.column := rfl
  have honDelete : optional fk.members "on_delete" OnDelete.decode? = some fk.onDelete :=
    optional_orNull rfl rfl fun action _ => action.decode?_encode
  simp [decode?, hmembers, hdatabase, hcrossDatabase, htable, hcolumn, honDelete]

theorem Column.decode?_encode (c : Column) : decode? c.encode = some c := by
  have hmembers : c.encode.object? = some c.members := rfl
  have hname : required c.members "name" string? = some c.name := rfl
  have hnullable : required c.members "nullable" bool? = some c.nullable := rfl
  have hdefault : optional c.members "default" DefaultValue.decode? = some c.default :=
    optional_orNull rfl rfl fun v _ => v.decode?_encode
  have htype : required c.members "column_type" ColumnType.decode? = some c.type :=
    required_of_lookup rfl c.type.decode?_encode
  have hforeignKey : optional c.members "foreign_key" ForeignKey.decode? = some c.foreignKey :=
    optional_orNull rfl rfl fun fk _ => fk.decode?_encode
  simp [decode?, hmembers, hname, hnullable, hdefault, htype, hforeignKey]

/-! ## Tables and databases -/

namespace Schema

theorem Index.decode?_encode (i : Index) : decode? i.encode = some i := by
  have hmembers : i.encode.object? = some i.members := rfl
  have hkind : required i.members "kind" (word? IndexKind.all IndexKind.token) = some i.kind :=
    required_of_lookup rfl i.kind.word?_token
  have hcolumns : required i.members "columns" (list? string?) = some i.columns :=
    required_of_lookup rfl (list?_ofList fun _ _ => rfl)
  simp [decode?, hmembers, hkind, hcolumns]

theorem Table.decode?_encode (t : Table) : decode? t.encode = some t := by
  have hmembers : t.encode.object? = some t.members := rfl
  have hname : required t.members "name" string? = some t.name := rfl
  have hcolumns : required t.members "columns" (list? Column.decode?) = some t.columns :=
    required_of_lookup rfl (list?_ofList fun c _ => c.decode?_encode)
  have hindexes : required t.members "indexes" (list? Index.decode?) = some t.indexes :=
    required_of_lookup rfl (list?_ofList fun i _ => i.decode?_encode)
  simp [decode?, hmembers, hname, hcolumns, hindexes]

theorem Database.decode?_encode (d : Database) : decode? d.encode = some d := by
  have hmembers : d.encode.object? = some d.members := rfl
  have hname : required d.members "name" string? = some d.name := rfl
  have hkind : required d.members "kind" (word? DatabaseKind.all DatabaseKind.token) = some d.kind :=
    required_of_lookup rfl d.kind.word?_token
  have htables : required d.members "tables" (list? Table.decode?) = some d.tables :=
    required_of_lookup rfl (list?_ofList fun table _ => table.decode?_encode)
  simp [decode?, hmembers, hname, hkind, htables]

theorem decode?_encode (s : Schema) : decode? s.encode = some s := by
  have hmembers : s.encode.object? = some s.members := rfl
  have hdatabases : required s.members "databases" (list? Database.decode?) = some s.databases :=
    required_of_lookup rfl (list?_ofList fun d _ => d.decode?_encode)
  simp [decode?, hmembers, hdatabases]

end Schema

/-! ## Depth

How deep a part nests, whatever holds it: no double is written at all. -/

section Depth

variable {P : Binary64 → Prop}

theorem Bounds.storable_encode (b : Bounds) (depth : Nat) : b.encode.Storable P (depth + 1) := by
  refine .object (by decide : ["min", "max"].Nodup) ?_
  simp only [members, List.forall_mem_cons]
  exact ⟨storable_int _, storable_int _, List.forall_mem_nil _⟩

theorem CodeValue.storable_encode (v : CodeValue) (depth : Nat) : v.encode.Storable P (depth + 1) := by
  refine .object (by decide : ["code", "name"].Nodup) ?_
  simp only [members, List.forall_mem_cons]
  exact ⟨storable_nat _, .string, List.forall_mem_nil _⟩

theorem DefaultValue.storable_encode (v : DefaultValue) (depth : Nat) :
    v.encode.Storable P (depth + 1) := by
  cases v with
  | integer n =>
      exact .object (by decide : ["Integer"].Nodup) (List.forall_mem_singleton.mpr (storable_int n))
  | empty => exact .string
  | hex digits => exact .object (by decide : ["Hex"].Nodup) (List.forall_mem_singleton.mpr .string)

theorem ColumnType.nodup_keys (t : ColumnType) : (t.members.map Prod.fst).Nodup := by
  cases t with
  | integer => exact (by decide : ["type", "size", "unsigned", "auto_increment", "bounds"].Nodup)
  | serial => exact (by decide : ["type", "size", "bounds"].Nodup)
  | timestamp => exact (by decide : ["type", "unsigned", "bounds"].Nodup)
  | string => exact (by decide : ["type", "min_length", "max_length"].Nodup)
  | binary => exact (by decide : ["type", "min_size", "max_size"].Nodup)
  | boolean => exact (by decide : ["type"].Nodup)
  | code => exact (by decide : ["type", "values"].Nodup)

theorem ColumnType.storable_details (t : ColumnType) (depth : Nat) :
    ∀ member ∈ t.details, member.2.Storable P (depth + 2) := by
  have hbounds : ∀ bounds : Bounds, bounds.encode.Storable P (depth + 2) := fun bounds =>
    bounds.storable_encode (depth + 1)
  cases t with
  | integer size unsigned autoIncrement bounds =>
      simp only [details, List.forall_mem_cons]
      exact ⟨.string, .bool, .bool, hbounds bounds, List.forall_mem_nil _⟩
  | serial size bounds =>
      simp only [details, List.forall_mem_cons]
      exact ⟨.string, hbounds bounds, List.forall_mem_nil _⟩
  | timestamp unsigned bounds =>
      simp only [details, List.forall_mem_cons]
      exact ⟨.bool, hbounds bounds, List.forall_mem_nil _⟩
  | string minLength maxLength =>
      simp only [details, List.forall_mem_cons]
      exact ⟨storable_orNull fun n _ => storable_int n, storable_int _, List.forall_mem_nil _⟩
  | binary minSize maxSize =>
      simp only [details, List.forall_mem_cons]
      exact ⟨storable_int _, storable_int _, List.forall_mem_nil _⟩
  | boolean => exact List.forall_mem_nil _
  | code domain =>
      exact List.forall_mem_singleton.mpr (storable_ofList fun v _ => v.storable_encode depth)

theorem ColumnType.storable_encode (t : ColumnType) (depth : Nat) : t.encode.Storable P (depth + 3) :=
  .object t.nodup_keys (List.forall_mem_cons.mpr ⟨.string, t.storable_details depth⟩)

theorem ForeignKey.storable_encode (fk : ForeignKey) (depth : Nat) :
    fk.encode.Storable P (depth + 1) := by
  refine .object (by decide : ["database", "cross_database", "table", "column", "on_delete"].Nodup) ?_
  simp only [members, List.forall_mem_cons]
  exact ⟨.string, .bool, .string, .string, storable_orNull fun _ _ => .string, List.forall_mem_nil _⟩

theorem Column.storable_encode (c : Column) (depth : Nat) : c.encode.Storable P (depth + 4) := by
  refine .object (by decide : ["name", "nullable", "default", "column_type", "foreign_key"].Nodup) ?_
  simp only [members, List.forall_mem_cons]
  exact ⟨.string, .bool, storable_orNull fun v _ => v.storable_encode _, c.type.storable_encode depth,
    storable_orNull fun fk _ => fk.storable_encode _, List.forall_mem_nil _⟩

namespace Schema

theorem Index.storable_encode (i : Index) (depth : Nat) : i.encode.Storable P (depth + 2) := by
  refine .object (by decide : ["kind", "columns"].Nodup) ?_
  simp only [members, List.forall_mem_cons]
  exact ⟨.string, storable_ofList fun _ _ => .string, List.forall_mem_nil _⟩

theorem Table.storable_encode (t : Table) (depth : Nat) : t.encode.Storable P (depth + 6) := by
  refine .object (by decide : ["name", "columns", "indexes"].Nodup) ?_
  simp only [members, List.forall_mem_cons]
  exact ⟨.string, storable_ofList fun c _ => c.storable_encode depth,
    storable_ofList fun i _ => i.storable_encode (depth + 2), List.forall_mem_nil _⟩

theorem Database.storable_encode (d : Database) (depth : Nat) : d.encode.Storable P (depth + 8) := by
  refine .object (by decide : ["name", "kind", "tables"].Nodup) ?_
  simp only [members, List.forall_mem_cons]
  exact ⟨.string, .string, storable_ofList fun table _ => table.storable_encode depth,
    List.forall_mem_nil _⟩

theorem storable_encode (s : Schema) : s.encode.Storable P 10 := by
  refine .object (by decide : ["databases"].Nodup) ?_
  exact List.forall_mem_singleton.mpr (storable_ofList fun d _ => d.storable_encode 0)

end Schema

end Depth

namespace Schema

/-- A schema is read back from its text, on one line or on indented ones, however doubles are read. -/
theorem text_restored [RealReader] (s : Schema) :
    (parse? s.encode.compact).bind decode? = some s ∧ (parse? s.encode.pretty).bind decode? = some s := by
  have hdeep : s.encode.Storable IsRestored maxDepth := s.storable_encode.mono (by decide)
  rw [parse?_compact hdeep, parse?_pretty hdeep]
  exact ⟨s.decode?_encode, s.decode?_encode⟩

/-- A schema that no document is compiled to. -/
def motley : Schema := ⟨[
  ⟨"", .core, []⟩,
  ⟨"a \"b\"\n", .tenant, [
    ⟨"\\", [], []⟩,
    ⟨"été", [
        ⟨"", true, some (.integer (-9223372036854775808)),
          .integer .tiny true true ⟨9223372036854775807, -9223372036854775808⟩,
          some ⟨"null", true, "", "\u0000", some .noAction⟩⟩,
        ⟨"", false, none, .serial .big ⟨0, 0⟩, some ⟨"", false, "", "", none⟩⟩,
        ⟨"since", true, some .empty, .timestamp false ⟨1, -1⟩, none⟩,
        ⟨"type", false, some (.hex "not hexadecimal"), .string none (-1), none⟩,
        ⟨"text", false, some .empty, .string (some 5) 3, none⟩,
        ⟨"digest", false, none, .binary (-9223372036854775808) 9223372036854775807, none⟩,
        ⟨"flag", true, some (.integer 2), .boolean, none⟩,
        ⟨"state", false, none, .code ⟨[]⟩, none⟩,
        ⟨"state", false, none,
          .code ⟨[⟨⟨255, by decide⟩, "A"⟩, ⟨⟨9, by decide⟩, ""⟩, ⟨⟨255, by decide⟩, "A"⟩]⟩, none⟩],
      [⟨.primary, []⟩, ⟨.unique, ["", ""]⟩, ⟨.index, ["missing"]⟩]⟩]⟩,
  ⟨"", .core, []⟩]⟩

theorem text_restored_motley :
    (parse? motley.encode.compact).bind decode? = some motley ∧
      (parse? motley.encode.pretty).bind decode? = some motley :=
  text_restored motley

end Schema

end SchemaCompiler
