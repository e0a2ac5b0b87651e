import SchemaCompiler.Ddl.Emission
import SchemaCompiler.Json.Quoted
import SchemaCompiler.Proofs.Column.Redeclaration
import SchemaCompiler.Proofs.Descriptor.Emission
import SchemaCompiler.Proofs.Text.Decimal
import SchemaCompiler.Proofs.Text.Determined
import Mathlib

/-! # A column in a script and in a descriptor

A column is rendered twice, by case analyses that know nothing of each other. What the two say is compared
by its meaning: the value behind a default, the numbers that a data type holds. -/

namespace SchemaCompiler

/-! ## Values of defaults -/

/-- The value that a default stands for. -/
inductive StoredValue
  | number (n : Int)
  | emptyString
  | bytes (bs : List Nat)
deriving DecidableEq

namespace StoredValue

/-- The bytes that hexadecimal digits stand for, two digits for each. -/
def bytes? : List Char → Option (List Nat)
  | [] => some []
  | [_] => none
  | a :: b :: rest => do
    let high ← Json.hexValue? a
    let low ← Json.hexValue? b
    return (high * 16 + low) :: (← bytes? rest)

/-- The value of a quoted byte string. -/
def quotedBytes? : List Char → Option StoredValue
  | 'X' :: '\'' :: rest => ((ByteLiteral.beforeQuote? rest).bind bytes?).map .bytes
  | _ => none

end StoredValue

/-- The value of a literal in a script. -/
def Ddl.literalValue? (literal : String) : Option StoredValue :=
  match literal.toList with
  | ['\'', '\''] => some .emptyString
  | 'X' :: rest => StoredValue.quotedBytes? ('X' :: rest)
  | _ => literal.toInt?.map .number

/-- The value of a scalar in a descriptor. -/
def Descriptor.Scalar.value? : Scalar → Option StoredValue
  | .bool _ => none
  | .int n => some (.number n.toInt)
  | .string s => if s = "" then some .emptyString else StoredValue.quotedBytes? s.toList

/-! ## Numbers of data types -/

namespace Ddl

/-- The width of an integer type in bits. -/
def integerBits? : String → Option Nat
  | "TINYINT" => some 8
  | "SMALLINT" => some 16
  | "MEDIUMINT" => some 24
  | "INT" => some 32
  | "BIGINT" => some 64
  | _ => none

/-- The numbers that the server stores under a type clause. -/
def TypeClause.Holds (t : TypeClause) (n : Int) : Prop :=
  ∃ bits, integerBits? t.dataType = some bits ∧
    if t.unsigned then 0 ≤ n ∧ n < 2 ^ bits else -2 ^ (bits - 1) ≤ n ∧ n < 2 ^ (bits - 1)

end Ddl

/-! ## Agreement -/

open Descriptor

/-- A default of a definition and a field of a record are both absent or have one value. -/
inductive DefaultsAgree : Option String → Option Field → Prop where
  | absent : DefaultsAgree none none
  | same {literal : String} {s : Scalar} {value : StoredValue}
      (hliteral : Ddl.literalValue? literal = some value) (hscalar : s.value? = some value) :
      DefaultsAgree (some literal) (some (.scalar s))

/-- The definition of a column and its record say the same. -/
structure ColumnsAgree (definition : Ddl.ColumnDefinition) (record : ColumnRecord) : Prop where
  name : definition.name = record.name
  notNull : definition.type.notNull ↔ record.field? "nullable" = some (bool false)
  autoIncrement : definition.type.autoIncrement ↔ record.field? "autoIncrement" = some (bool true)
  unsigned : definition.type.unsigned ↔ record.field? "unsigned" = some (bool true) ∨
    record.field? "type" = some (string "boolean") ∨ record.field? "type" = some (string "code")
  default : DefaultsAgree definition.type.default (record.field? "defaultValue")
  size : record.field? "type" = some (string "integer") ∨
    record.field? "type" = some (string "serial") →
    record.field? "size" = some (string definition.type.dataType)
  varchar : ∀ n : Int64, definition.type.dataType = "VARCHAR(" ++ toString n ++ ")" ↔
    record.field? "maxLength" = some (int n)
  binary : ∀ n : Int64, definition.type.dataType = "BINARY(" ++ toString n ++ ")" ↔
    record.field? "maxSize" = some (int n) ∧ record.field? "minSize" = some (int n)
  varbinary : ∀ n : Int64, definition.type.dataType = "VARBINARY(" ++ toString n ++ ")" ↔
    record.field? "maxSize" = some (int n) ∧ record.field? "minSize" ≠ some (int n)
  bounds : ∀ least greatest, record.field? "minValue" = some least →
    record.field? "maxValue" = some greatest → ∃ a b, least = int a ∧ greatest = int b ∧
      ∀ n : Int, a.toInt ≤ n → n ≤ b.toInt → definition.type.Holds n

/-! ## Values -/

theorem ByteLiteral.isHexDigit_iff {c : Char} : isHexDigit c ↔ ∃ n, Json.hexValue? c = some n := by
  simp only [isHexDigit, Bool.or_eq_true, Bool.and_eq_true, decide_eq_true_eq, Json.hexValue?]
  constructor
  · intro h
    split_ifs
    · exact ⟨_, rfl⟩
    · exact ⟨_, rfl⟩
    · exact ⟨_, rfl⟩
    · tauto
  · rintro ⟨n, hn⟩
    split_ifs at hn
    · tauto
    · tauto
    · tauto

namespace StoredValue

theorem bytes?_cons_eq_some {a b : Char} {rest : List Char} {bytes : List Nat} :
    bytes? (a :: b :: rest) = some bytes ↔ ∃ high low behind,
      Json.hexValue? a = some high ∧ Json.hexValue? b = some low ∧
        bytes? rest = some behind ∧ bytes = (high * 16 + low) :: behind := by
  simp only [bytes?, Option.bind_eq_bind, Option.bind_eq_some_iff, Option.pure_def,
    Option.some.injEq]
  constructor
  · rintro ⟨high, hhigh, low, hlow, behind, hbehind, rfl⟩
    exact ⟨high, low, behind, hhigh, hlow, hbehind, rfl⟩
  · rintro ⟨high, low, behind, hhigh, hlow, hbehind, rfl⟩
    exact ⟨high, hhigh, low, hlow, behind, hbehind, rfl⟩

/-- Digits stand for bytes exactly where they come in pairs. -/
theorem exists_bytes?_iff {digits : List Char} : (∃ bytes, bytes? digits = some bytes) ↔
    digits.length % 2 = 0 ∧ digits.all ByteLiteral.isHexDigit := by
  induction digits using bytes?.induct with
  | case1 => simp [bytes?]
  | case2 => simp [bytes?]
  | case3 a b rest ih =>
      have hlength : (a :: b :: rest).length % 2 = rest.length % 2 := Nat.add_mod_right rest.length 2
      rw [hlength, List.all_cons, List.all_cons, Bool.and_eq_true, Bool.and_eq_true,
        ByteLiteral.isHexDigit_iff, ByteLiteral.isHexDigit_iff]
      simp only [bytes?_cons_eq_some]
      constructor
      · rintro ⟨_, high, low, behind, hhigh, hlow, hbehind, -⟩
        obtain ⟨heven, hall⟩ := ih.mp ⟨behind, hbehind⟩
        exact ⟨heven, ⟨high, hhigh⟩, ⟨low, hlow⟩, hall⟩
      · rintro ⟨heven, ⟨high, hhigh⟩, ⟨low, hlow⟩, hall⟩
        obtain ⟨behind, hbehind⟩ := ih.mpr ⟨heven, hall⟩
        exact ⟨_, high, low, behind, hhigh, hlow, hbehind, rfl⟩

theorem quotedBytes?_hex (digits : String) :
    quotedBytes? ("X'" ++ digits ++ "'").toList = (bytes? digits.toList).map .bytes := by
  rw [ByteLiteral.toList_quoted, quotedBytes?, ByteLiteral.beforeQuote?_eq_some.mpr rfl, Option.bind_some]

end StoredValue

namespace Ddl

theorem literalValue?_toString (n : Int) : literalValue? (toString n) = some (.number n) := by
  have hmem : ∀ c ∈ (toString n).toList, c = '-' ∨ c.isDigit := fun _ => Text.mem_toString_int
  unfold literalValue?
  split
  · next htext =>
      rw [htext] at hmem
      exact absurd (hmem '\'' (by simp)) (by decide)
  · next htext =>
      rw [htext] at hmem
      exact absurd (hmem 'X' (by simp)) (by decide)
  · rw [Int.toString_eq_repr, Int.toInt?_repr, Option.map_some]

theorem literalValue?_hex (digits : String) : literalValue? ("X'" ++ digits ++ "'") =
    StoredValue.quotedBytes? ("X'" ++ digits ++ "'").toList := by
  have htext : ("X'" ++ digits ++ "'").toList = 'X' :: ("'" ++ digits ++ "'").toList := by
    rw [String.toList_append, String.toList_append, String.toList_append, String.toList_append]
    rfl
  unfold literalValue?
  rw [htext]
  rfl

example : literalValue? "X'00FF'" = some (.bytes [0, 255]) := by cbv

end Ddl

/-- Both renderings of a default have one value. -/
theorem ColumnType.Admits.defaultsAgree {type : ColumnType} {v : DefaultValue} (h : type.Admits v) :
    DefaultsAgree (some (Ddl.literal v)) (some (.scalar (defaultScalar v))) := by
  have hnumber : ∀ n : Int64, DefaultsAgree (some (Ddl.literal (.integer n)))
      (some (.scalar (defaultScalar (.integer n)))) :=
    fun n => .same (Ddl.literalValue?_toString n.toInt) rfl
  have hempty : DefaultsAgree (some (Ddl.literal .empty)) (some (.scalar (defaultScalar .empty))) :=
    .same (show _ = some StoredValue.emptyString from rfl) rfl
  cases h with
  | integer | timestamp | boolean | code => exact hnumber _
  | string | noBytes => exact hempty
  | @bytes _ _ digits _ hbytes _ =>
      have hdigits : digits.toList.all ByteLiteral.isHexDigit :=
        List.all_eq_true.mpr fun c hc => (hbytes.upper c hc).isHexDigit.1
      obtain ⟨bs, hbs⟩ := StoredValue.exists_bytes?_iff.mpr ⟨hbytes.even, hdigits⟩
      have hvalue : StoredValue.quotedBytes? ("X'" ++ digits ++ "'").toList = some (.bytes bs) := by
        rw [StoredValue.quotedBytes?_hex, hbs, Option.map_some]
      refine .same ((Ddl.literalValue?_hex digits).trans hvalue) ?_
      change (if "X'" ++ digits ++ "'" = "" then some .emptyString
        else StoredValue.quotedBytes? ("X'" ++ digits ++ "'").toList) = _
      rw [if_neg (by simp), hvalue]

/-! ## Fields of a record -/

namespace Descriptor

@[simp] theorem bool_inj {a b : Bool} : bool a = bool b ↔ a = b := by
  simp [bool]

@[simp] theorem int_inj {m n : Int64} : int m = int n ↔ m = n := by
  simp [int]

@[simp] theorem string_inj {s t : String} : string s = string t ↔ s = t := by
  simp [string]

/-- A part of a record: the keys that it may hold and the fields that it holds. -/
abbrev Part :=
  List String × List (String × Field)

theorem lookup_eq_none {fields : List (String × Field)} {keys : List String} {key : String}
    (hkeys : (fields.map Prod.fst).Sublist keys) (hkey : key ∉ keys) : fields.lookup key = none := by
  rw [List.lookup_eq_none_iff]
  rintro ⟨key', field⟩ hfield
  rw [bne_iff_ne]
  rintro rfl
  exact hkey (hkeys.subset (List.mem_map_of_mem hfield))

/-- Of parts that share no keys, the one that a key belongs to decides on it. -/
theorem lookup_flatMap {parts : List Part}
    (hkeys : ∀ part ∈ parts, (part.2.map Prod.fst).Sublist part.1)
    (hnodup : (parts.flatMap Prod.fst).Nodup) {part : Part} (hpart : part ∈ parts) {key : String}
    (hkey : key ∈ part.1) : (parts.flatMap Prod.snd).lookup key = part.2.lookup key := by
  induction parts with
  | nil => simp at hpart
  | cons first parts ih =>
      rw [List.forall_mem_cons] at hkeys
      rw [List.flatMap_cons, List.nodup_append'] at hnodup
      obtain ⟨-, hrest, hdisjoint⟩ := hnodup
      rw [List.flatMap_cons, List.lookup_append]
      rcases List.mem_cons.mp hpart with rfl | hpart
      · have hothers : ((parts.flatMap Prod.snd).map Prod.fst).Sublist (parts.flatMap Prod.fst) := by
          rw [List.map_flatMap]
          exact List.Sublist.flatMap_right parts hkeys.2
        rw [lookup_eq_none hothers (hdisjoint hkey), Option.or_none]
      · have hmem : key ∈ parts.flatMap Prod.fst := List.mem_flatMap.mpr ⟨part, hpart, hkey⟩
        rw [lookup_eq_none hkeys.1 fun hfirst => hdisjoint hfirst hmem, Option.none_or]
        exact ih hkeys.2 hrest hpart

/-- The keys of the fields that a type may show. -/
def typeKeys : List String :=
  ["size", "unsigned", "autoIncrement", "minLength", "maxLength", "minSize", "maxSize"]

/-- The parts of a record in order. -/
def parts (c : Column) : List Part :=
  [(["_table", "type", "nullable"],
      [("_table", .table), ("type", string c.type.kind.token), ("nullable", bool c.nullable)]),
    (["defaultValue"], defaultFields c), (typeKeys, typeFields c.type),
    (["minValue", "maxValue"], boundsFields c), (["references"], referenceFields c),
    (["nameToCode", "codeToName", "codes"], codeFields c)]

variable (c : Column)

theorem field?_of_part {part : Part} (hpart : part ∈ parts c) {key : String} (hkey : key ∈ part.1) :
    (columnRecord c).field? key = part.2.lookup key := by
  have hfields : (columnRecord c).fields = (parts c).flatMap Prod.snd := by
    simp [columnRecord, parts]
  have hkeys : ∀ part ∈ parts c, (part.2.map Prod.fst).Sublist part.1 := by
    simp only [parts, List.forall_mem_cons]
    exact ⟨.refl _, defaultFields_keys c, typeFields_keys c.type, boundsFields_keys c,
      referenceFields_keys c, codeFields_keys c, by simp⟩
  have hnodup : ((parts c).flatMap Prod.fst).Nodup :=
    legalKeys_fieldKeys.distinct.of_cons.of_cons
  rw [ColumnRecord.field?, hfields]
  exact lookup_flatMap hkeys hnodup hpart hkey

theorem field?_type : (columnRecord c).field? "type" = some (string c.type.kind.token) := rfl

theorem field?_nullable : (columnRecord c).field? "nullable" = some (bool c.nullable) := rfl

theorem field?_defaultValue : (columnRecord c).field? "defaultValue" =
    c.default.map fun v => .scalar (defaultScalar v) := by
  have hpart : (["defaultValue"], defaultFields c) ∈ parts c := by simp [parts]
  rw [field?_of_part c hpart (by simp)]
  unfold defaultFields
  cases c.default <;> rfl

theorem field?_typeFields {key : String} (h : key ∈ typeKeys) :
    (columnRecord c).field? key = (typeFields c.type).lookup key := by
  have hpart : (typeKeys, typeFields c.type) ∈ parts c := by simp [parts]
  exact field?_of_part c hpart h

theorem field?_boundsFields {key : String} (h : key ∈ ["minValue", "maxValue"]) :
    (columnRecord c).field? key = (boundsFields c).lookup key := by
  have hpart : (["minValue", "maxValue"], boundsFields c) ∈ parts c := by simp [parts]
  exact field?_of_part c hpart h

theorem field?_references : (columnRecord c).field? "references" =
    c.foreignKey.map fun fk => string (referencePath fk) := by
  have hpart : (["references"], referenceFields c) ∈ parts c := by simp [parts]
  rw [field?_of_part c hpart (by simp)]
  unfold referenceFields
  cases c.foreignKey <;> rfl

end Descriptor

/-! ## Data types -/

namespace Ddl

theorem sized_inj {keyword keyword' : String} {m n : Int64} (h : '(' ∉ keyword.toList)
    (h' : '(' ∉ keyword'.toList) :
    sized keyword m = sized keyword' n ↔ keyword = keyword' ∧ m = n := by
  have hlist : ∀ keyword : String, ∀ n : Int64, (sized keyword n).toList =
      keyword.toList ++ '(' :: ((toString n).toList ++ [')']) := by
    intro keyword n
    rw [sized, String.toList_append, String.toList_append, String.toList_append,
      List.append_assoc keyword.toList, List.append_assoc keyword.toList]
    rfl
  have hword := Text.determines_word fun c => decide (c = '(')
  simp only [decide_eq_true_eq, decide_eq_false_iff_not] at hword
  have hopen : ∀ (s : List Char) (c : Char), ('(' :: s).head? = some c → c = '(' := by
    intro s c hc
    cases hc
    rfl
  constructor
  · intro heq
    have htext := congrArg String.toList heq
    rw [hlist, hlist] at htext
    obtain ⟨hkeyword, hrest⟩ := hword (fun c hc => ne_of_mem_of_not_mem hc h)
      (fun c hc => ne_of_mem_of_not_mem hc h') (hopen _) (hopen _) htext
    have hdigits := String.toList_inj.mp (List.append_cancel_right (List.cons.inj hrest).2)
    refine ⟨hkeyword, ?_⟩
    have hints : toString m.toInt = toString n.toInt := hdigits
    rw [Int.toString_eq_repr, Int.toString_eq_repr] at hints
    have hvalues := congrArg String.toInt? hints
    rw [Int.toInt?_repr, Int.toInt?_repr, Option.some.injEq] at hvalues
    exact Int64.toInt_inj.mp hvalues
  · rintro ⟨rfl, rfl⟩
    rfl

theorem token_ne_sized (size : IntegerSize) (keyword : String) (n : Int64) :
    size.token ≠ sized keyword n := by
  intro h
  have hopen : '(' ∈ (sized keyword n).toList := by simp [sized]
  rw [← h] at hopen
  revert hopen
  cases size <;> simp [IntegerSize.token]

/-- The numbers within the bounds of a size fit its data type. -/
theorem holds_of_bounds {t : TypeClause} {size : IntegerSize} (htype : t.dataType = size.token) {n : Int}
    (hmin : (size.bounds t.unsigned).min.toInt ≤ n) (hmax : n ≤ (size.bounds t.unsigned).max.toInt) :
    t.Holds n := by
  have hbits : ∃ bits, integerBits? size.token = some bits ∧ if t.unsigned then
      (size.bounds t.unsigned).min.toInt = 0 ∧ (size.bounds t.unsigned).max.toInt < 2 ^ bits
      else -2 ^ (bits - 1) ≤ (size.bounds t.unsigned).min.toInt ∧
        (size.bounds t.unsigned).max.toInt < 2 ^ (bits - 1) := by
    cases size <;> cases t.unsigned <;> exact ⟨_, rfl, by decide⟩
  obtain ⟨bits, hbits, hrange⟩ := hbits
  refine ⟨bits, htype ▸ hbits, ?_⟩
  split
  · next hunsigned =>
      rw [if_pos hunsigned] at hrange
      exact ⟨hrange.1 ▸ hmin, hmax.trans_lt hrange.2⟩
  · next hsigned =>
      rw [if_neg hsigned] at hrange
      exact ⟨hrange.1.trans hmin, hmax.trans_lt hrange.2⟩

end Ddl

/-- The bounds of a type lie within those of the size that it is stored in. -/
theorem ColumnType.InOrder.exists_size {type : ColumnType} (h : type.InOrder) {b : Bounds}
    (hb : type.bounds? = some b) : ∃ size : IntegerSize, Ddl.dataType type = size.token ∧
      (size.bounds (Ddl.isUnsigned type)).min ≤ b.min ∧
      b.max ≤ (size.bounds (Ddl.isUnsigned type)).max := by
  cases h with
  | @integer size _ _ _ least ordered greatest =>
      cases hb
      exact ⟨size, rfl, least, greatest⟩
  | @serial size =>
      cases hb
      exact ⟨size, rfl, (size.bounds_contains_one true).1, Int64.le_refl _⟩
  | timestamp =>
      cases hb
      exact ⟨.big, rfl, Int64.le_refl _, Int64.le_refl _⟩
  | boolean =>
      cases hb
      exact ⟨.tiny, rfl, by decide, by decide⟩
  | code =>
      cases hb
      exact ⟨.tiny, rfl, Int64.le_refl _, Int64.le_refl _⟩
  | string | binary => cases hb

/-! ## Lengths -/

theorem Ddl.dataType_eq_varchar (type : ColumnType) (n : Int64) :
    dataType type = sized "VARCHAR" n ↔ (typeFields type).lookup "maxLength" = some (int n) := by
  cases type with
  | integer | serial | timestamp | boolean | code =>
      simp [dataType, token_ne_sized, typeFields, List.lookup]
  | string minLength maxLength =>
      rw [dataType, sized_inj (by simp) (by simp)]
      cases minLength <;> simp [typeFields, List.lookup]
  | binary minSize maxSize =>
      have hopen : '(' ∉ (if minSize = maxSize then "BINARY" else "VARBINARY").toList := by
        split <;> simp
      rw [dataType, sized_inj hopen (by simp)]
      split <;> simp [typeFields, List.lookup]

/-- The word for bytes tells whether their number is fixed. -/
theorem Ddl.dataType_eq_bytes (type : ColumnType) (fixed : Bool) (n : Int64) :
    dataType type = sized (if fixed then "BINARY" else "VARBINARY") n ↔
      (typeFields type).lookup "maxSize" = some (int n) ∧
        ((typeFields type).lookup "minSize" = some (int n) ↔ fixed) := by
  have hopen : '(' ∉ (if fixed then "BINARY" else "VARBINARY").toList := by
    cases fixed <;> simp
  cases type with
  | integer | serial | timestamp | boolean | code =>
      simp [dataType, token_ne_sized, typeFields, List.lookup]
  | string minLength maxLength =>
      rw [dataType, sized_inj (by simp) hopen]
      cases minLength <;> cases fixed <;> simp [typeFields, List.lookup]
  | binary minSize maxSize =>
      have hopen' : '(' ∉ (if minSize = maxSize then "BINARY" else "VARBINARY").toList := by
        split <;> simp
      have hword : (if minSize = maxSize then "BINARY" else "VARBINARY") =
          (if fixed then "BINARY" else "VARBINARY") ↔ (minSize = maxSize ↔ fixed) := by
        by_cases hsame : minSize = maxSize <;> cases fixed <;> simp [hsame]
      have hmax : (typeFields (.binary minSize maxSize)).lookup "maxSize" = some (int maxSize) := rfl
      have hmin : (typeFields (.binary minSize maxSize)).lookup "minSize" = some (int minSize) := rfl
      rw [dataType, sized_inj hopen' hopen, hword, hmax, hmin, Option.some_inj, Option.some_inj, int_inj,
        int_inj, and_comm]
      exact and_congr_right fun hn => by rw [hn]

/-- A column in order is rendered alike in scripts and in descriptors. -/
theorem Column.InOrder.columnsAgree {c : Column} (h : c.InOrder) :
    ColumnsAgree ⟨c.name, Ddl.typeClause c⟩ (columnRecord c) where
  name := rfl
  notNull := by simp [Ddl.typeClause, field?_nullable]
  autoIncrement := by
    rw [field?_typeFields c (by decide)]
    cases htype : c.type with
    | string minLength maxLength =>
        cases minLength <;> simp [Ddl.typeClause, Ddl.isNumbered, typeFields, htype, List.lookup]
    | integer | serial | timestamp | binary | boolean | code =>
        simp [Ddl.typeClause, Ddl.isNumbered, typeFields, htype, List.lookup]
  unsigned := by
    rw [field?_typeFields c (by decide), field?_type]
    cases htype : c.type with
    | string minLength maxLength =>
        cases minLength <;> simp [Ddl.typeClause, Ddl.isUnsigned, typeFields, htype, List.lookup,
          ColumnType.kind, ColumnKind.token]
    | integer | serial | timestamp | binary | boolean | code =>
        simp [Ddl.typeClause, Ddl.isUnsigned, typeFields, htype, List.lookup, ColumnType.kind,
          ColumnKind.token]
  default := by
    rw [field?_defaultValue]
    cases hdefault : c.default with
    | none => simpa [Ddl.typeClause, hdefault] using DefaultsAgree.absent
    | some v => simpa [Ddl.typeClause, hdefault] using (h.default v hdefault).defaultsAgree
  size := by
    rw [field?_type, field?_typeFields c (by decide)]
    cases htype : c.type <;> simp [Ddl.typeClause, Ddl.dataType, typeFields, htype, List.lookup,
      ColumnType.kind, ColumnKind.token]
  varchar n := by
    rw [field?_typeFields c (by decide)]
    exact Ddl.dataType_eq_varchar c.type n
  binary n := by
    rw [field?_typeFields c (by decide), field?_typeFields c (by decide)]
    have hbytes := Ddl.dataType_eq_bytes c.type true n
    simp only [if_true, iff_true] at hbytes
    exact hbytes
  varbinary n := by
    rw [field?_typeFields c (by decide), field?_typeFields c (by decide)]
    have hbytes := Ddl.dataType_eq_bytes c.type false n
    simp only [Bool.false_eq_true, if_false, iff_false] at hbytes
    exact hbytes
  bounds := by
    intro least greatest hleast hgreatest
    rw [field?_boundsFields c (by decide)] at hleast hgreatest
    unfold boundsFields at hleast hgreatest
    cases hb : c.bounds? with
    | none => simp [hb] at hleast
    | some b =>
        simp only [hb] at hleast hgreatest
        cases hleast
        cases hgreatest
        obtain ⟨size, hsize, hmin, hmax⟩ := h.type.exists_size hb
        rw [Int64.le_iff_toInt_le] at hmin hmax
        exact ⟨b.min, b.max, rfl, rfl, fun n hn hn' => Ddl.holds_of_bounds (t := Ddl.typeClause c) hsize
          (hmin.trans hn) (hn'.trans hmax)⟩

end SchemaCompiler
