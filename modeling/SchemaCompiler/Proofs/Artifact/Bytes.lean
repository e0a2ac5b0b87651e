import SchemaCompiler.Proofs.Artifact.Columns
import SchemaCompiler.Proofs.Column.Integer

/-! # Byte strings as defaults

A declaration may write a byte string in several ways. They all come to one default, which is rendered as
another way of writing the same bytes, so that declaring a rendered default again changes nothing. -/

namespace SchemaCompiler

/-! ## Spellings -/

namespace ByteLiteral

/-- The three forms of a literal around its digits. -/
inductive Encloses (digits : String) : String → Prop where
  | capital : Encloses digits ("X'" ++ digits ++ "'")
  | small : Encloses digits ("x'" ++ digits ++ "'")
  | zero : Encloses digits ("0x" ++ digits)

/-- A literal in one of the three forms, with two digits of either case for each byte. -/
def IsHex (literal : String) (bytes : List Nat) : Prop :=
  ∃ digits, Encloses digits literal ∧ StoredValue.bytes? digits.toList = some bytes

/-- The ways of writing a byte string. -/
inductive Spells : String → List Nat → Prop where
  | nothing : Spells "" []
  | quotes : Spells "''" []
  | digits {literal bytes} (h : IsHex literal bytes) : Spells literal bytes

/-- The digit of a value below sixteen, in upper case. -/
def upperDigit (n : Nat) : Char :=
  (Json.hexDigit n).toUpper

/-- Bytes as digits in upper case. -/
def upperDigits (bytes : List Nat) : List Char :=
  bytes.flatMap fun b => [upperDigit (b / 16), upperDigit (b % 16)]

end ByteLiteral

/-- The default that stands for bytes. -/
def DefaultValue.ofBytes (bytes : List Nat) : DefaultValue :=
  if bytes = [] then .empty else .hex (String.ofList (ByteLiteral.upperDigits bytes))

/-- The bytes of a stored value. The empty string has none. -/
def StoredValue.content? : StoredValue → Option (List Nat)
  | .number _ => none
  | .emptyString => some []
  | .bytes bs => some bs

/-! ## Digits -/

namespace ByteLiteral

/-- A digit of either case is the upper-case digit of its value once it is in upper case. -/
theorem upperDigit_of_hexValue? {c : Char} {n : Nat} (h : Json.hexValue? c = some n) :
    n < 16 ∧ c.toUpper = upperDigit n ∧ Json.hexValue? (upperDigit n) = some n := by
  have hall : ∀ k < 128, ∀ n ∈ Json.hexValue? (Char.ofNat k), n < 16 ∧
      (Char.ofNat k).toUpper = upperDigit n ∧ Json.hexValue? (upperDigit n) = some n := by
    decide
  have hc := hall c.toNat (toNat_lt_of_isHexDigit (isHexDigit_iff.mpr ⟨n, h⟩)) n
  rw [Char.ofNat_toNat] at hc
  exact hc h

theorem upperDigits_cons {high low : Nat} (hlow : low < 16) (bytes : List Nat) :
    upperDigits ((high * 16 + low) :: bytes) =
      upperDigit high :: upperDigit low :: upperDigits bytes := by
  have hdiv : (high * 16 + low) / 16 = high := by omega
  have hmod : (high * 16 + low) % 16 = low := by omega
  simp only [upperDigits, List.flatMap_cons, hdiv, hmod]
  rfl

/-- In upper case, digits no longer tell how their bytes were written, and still stand for them. -/
theorem upperDigits_of_bytes? {digits : List Char} {bytes : List Nat}
    (h : StoredValue.bytes? digits = some bytes) : digits.map Char.toUpper = upperDigits bytes ∧
      StoredValue.bytes? (upperDigits bytes) = some bytes := by
  induction digits using StoredValue.bytes?.induct generalizing bytes with
  | case1 =>
      cases h
      exact ⟨rfl, rfl⟩
  | case2 => cases h
  | case3 a b rest ih =>
      obtain ⟨high, low, behind, hhigh, hlow, hbehind, rfl⟩ := StoredValue.bytes?_cons_eq_some.mp h
      obtain ⟨-, hupper, hvalue⟩ := upperDigit_of_hexValue? hhigh
      obtain ⟨hlow16, hupper', hvalue'⟩ := upperDigit_of_hexValue? hlow
      obtain ⟨hrest, hrestBytes⟩ := ih hbehind
      rw [upperDigits_cons hlow16]
      refine ⟨?_, StoredValue.bytes?_cons_eq_some.mpr ⟨high, low, behind, hvalue, hvalue', hrestBytes, rfl⟩⟩
      rw [List.map_cons, List.map_cons, hupper, hupper', hrest]

@[simp] theorem length_upperDigits (bytes : List Nat) :
    (upperDigits bytes).length = 2 * bytes.length := by
  simp [upperDigits, List.length_flatMap, mul_comm]

@[simp] theorem size_upperDigits (bytes : List Nat) :
    size (String.ofList (upperDigits bytes)) = bytes.length := by
  simp [size]

/-! ## Literals -/

theorem body?_eq_some {literal digits : String} :
    body? literal.toList = some digits.toList ↔ Encloses digits literal := by
  constructor
  · intro h
    unfold body? at h
    split at h
    · next rest hliteral =>
        cases h
        have hzero : literal = "0x" ++ digits := by
          rw [← String.toList_inj, hliteral, String.toList_append]
          rfl
        exact hzero ▸ .zero
    · next rest hliteral =>
        have hcapital : literal = "X'" ++ digits ++ "'" := by
          rw [← String.toList_inj, hliteral, beforeQuote?_eq_some.mp h, toList_quoted]
        exact hcapital ▸ .capital
    · next rest hliteral =>
        have hsmall : literal = "x'" ++ digits ++ "'" := by
          rw [← String.toList_inj, hliteral, beforeQuote?_eq_some.mp h, String.toList_append,
            String.toList_append]
          rfl
        exact hsmall ▸ .small
    · cases h
  · rintro (_ | _ | _)
    · rw [toList_quoted]
      exact beforeQuote?_eq_some.mpr rfl
    · rw [String.toList_append, String.toList_append]
      exact beforeQuote?_eq_some.mpr rfl
    · rw [String.toList_append]
      rfl

theorem Encloses.unique {literal digits digits' : String} (h : Encloses digits literal)
    (h' : Encloses digits' literal) : digits = digits' := by
  have hbody := (body?_eq_some.mpr h).symm.trans (body?_eq_some.mpr h')
  exact String.toList_inj.mp (Option.some.inj hbody)

theorem IsHex.unique {literal : String} {bytes bytes' : List Nat} (h : IsHex literal bytes)
    (h' : IsHex literal bytes') : bytes = bytes' := by
  obtain ⟨digits, hdigits, hbytes⟩ := h
  obtain ⟨digits', hdigits', hbytes'⟩ := h'
  cases hdigits.unique hdigits'
  exact Option.some.inj (hbytes.symm.trans hbytes')

/-- A literal of digits is none of the empty literals. -/
theorem IsHex.isEmpty_eq_false {literal : String} {bytes : List Nat} (h : IsHex literal bytes) :
    isEmpty literal = false := by
  obtain ⟨digits, hdigits, -⟩ := h
  have hbody := body?_eq_some.mpr hdigits
  rw [isEmpty, Bool.or_eq_false_iff, decide_eq_false_iff_not, decide_eq_false_iff_not]
  constructor
  · rintro rfl
    cases hbody
  · rintro rfl
    cases hbody

theorem spells_of_isEmpty {literal : String} (h : isEmpty literal) : Spells literal [] := by
  rw [isEmpty, Bool.or_eq_true, decide_eq_true_eq, decide_eq_true_eq] at h
  rcases h with rfl | rfl
  · exact .nothing
  · exact .quotes

theorem Spells.cases_isEmpty {literal : String} {bytes : List Nat} (h : Spells literal bytes) :
    isEmpty literal = true ∧ bytes = [] ∨ isEmpty literal = false ∧ IsHex literal bytes := by
  cases h with
  | nothing => exact .inl ⟨rfl, rfl⟩
  | quotes => exact .inl ⟨rfl, rfl⟩
  | digits h => exact .inr ⟨h.isEmpty_eq_false, h⟩

/-- A text spells one byte string at most. -/
theorem Spells.unique {literal : String} {bytes bytes' : List Nat} (h : Spells literal bytes)
    (h' : Spells literal bytes') : bytes = bytes' := by
  rcases h.cases_isEmpty with ⟨hempty, rfl⟩ | ⟨hempty, h⟩
  · rcases h'.cases_isEmpty with ⟨-, rfl⟩ | ⟨hempty', -⟩
    · rfl
    · simp [hempty] at hempty'
  · rcases h'.cases_isEmpty with ⟨hempty', -⟩ | ⟨-, h'⟩
    · simp [hempty] at hempty'
    · exact h.unique h'

/-- The digits that are read from a literal are those of its bytes. -/
theorem digits?_eq_some {literal digits : String} : digits? literal = some digits ↔
    ∃ bytes, IsHex literal bytes ∧ digits = String.ofList (upperDigits bytes) := by
  simp only [digits?, Option.bind_eq_bind, Option.bind_eq_some_iff]
  constructor
  · rintro ⟨body, hbody, h⟩
    split at h
    · next hpairs =>
        cases h
        obtain ⟨bytes, hbytes⟩ := StoredValue.exists_bytes?_iff.mpr hpairs
        refine ⟨bytes, ⟨String.ofList body, ?_, ?_⟩, ?_⟩
        · exact body?_eq_some.mp (by rw [hbody, String.toList_ofList])
        · rw [String.toList_ofList, hbytes]
        · rw [(upperDigits_of_bytes? hbytes).1]
    · cases h
  · rintro ⟨bytes, ⟨body, hbody, hbytes⟩, rfl⟩
    refine ⟨body.toList, body?_eq_some.mpr hbody, ?_⟩
    rw [if_pos (StoredValue.exists_bytes?_iff.mp ⟨bytes, hbytes⟩), (upperDigits_of_bytes? hbytes).1]
    rfl

end ByteLiteral

/-! ## Renderings -/

namespace DefaultValue

open ByteLiteral Descriptor

variable {bytes : List Nat} {literal : String}

theorem ofBytes_of_ne_nil (h : bytes ≠ []) : ofBytes bytes = .hex (String.ofList (upperDigits bytes)) :=
  if_neg h

/-- A byte string is rendered in ways of writing it, whichever way it was written. -/
theorem spells_renderings (h : Spells literal bytes) :
    Spells (Ddl.literal (ofBytes bytes)) bytes ∧
      ∃ text, defaultScalar (ofBytes bytes) = .string text ∧ Spells text bytes := by
  by_cases hnil : bytes = []
  · subst hnil
    exact ⟨.quotes, _, rfl, .nothing⟩
  · rcases h.cases_isEmpty with ⟨-, rfl⟩ | ⟨-, digits, -, hbytes⟩
    · exact absurd rfl hnil
    · rw [ofBytes_of_ne_nil hnil]
      have hquoted : Spells ("X'" ++ String.ofList (upperDigits bytes) ++ "'") bytes := by
        refine .digits ⟨_, .capital, ?_⟩
        rw [String.toList_ofList]
        exact (upperDigits_of_bytes? hbytes).2
      exact ⟨hquoted, _, rfl, hquoted⟩

/-- Scripts and descriptors store the bytes that were written. -/
theorem content?_renderings (h : Spells literal bytes) :
    (Ddl.literalValue? (Ddl.literal (ofBytes bytes))).bind StoredValue.content? = some bytes ∧
      (defaultScalar (ofBytes bytes)).value?.bind StoredValue.content? = some bytes := by
  by_cases hnil : bytes = []
  · subst hnil
    exact ⟨rfl, rfl⟩
  · rcases h.cases_isEmpty with ⟨-, rfl⟩ | ⟨-, digits, -, hbytes⟩
    · exact absurd rfl hnil
    · have hvalue : StoredValue.quotedBytes? ("X'" ++ String.ofList (upperDigits bytes) ++ "'").toList =
          some (.bytes bytes) := by
        rw [StoredValue.quotedBytes?_hex, String.toList_ofList, (upperDigits_of_bytes? hbytes).2,
          Option.map_some]
      rw [ofBytes_of_ne_nil hnil]
      constructor
      · rw [Ddl.literal, Ddl.literalValue?_hex, hvalue]
        rfl
      · rw [defaultScalar, Scalar.value?, if_neg (by simp), hvalue]
        rfl

end DefaultValue

/-! ## Rules -/

namespace ColumnDeclaration

open ByteLiteral Descriptor

variable {c : ColumnDeclaration} {least greatest : Int64} {s : String} {bytes : List Nat}

/-- The sizes that a binary column declares are in order. -/
structure SizesAre (c : ColumnDeclaration) (minSize maxSize : Int64) : Prop where
  greatest : ∃ v, c.maxSize = some v ∧ v.IsSafeInteger maxSize
  positive : 1 ≤ maxSize
  least : LimitIs ⟨1, maxSize⟩ 0 c.minSize minSize

theorem sizesAre_iff : c.SizesAre least greatest ↔
    requiredLimit "maxSize" c.maxSize = .ok greatest ∧
      limit "minSize" ⟨1, greatest⟩ 0 c.minSize = .ok least := by
  rw [requiredLimit_eq_ok, limit_eq_ok]
  constructor
  · rintro ⟨hgreatest, hpositive, hleast⟩
    exact ⟨⟨hgreatest, hpositive⟩, hleast⟩
  · rintro ⟨⟨hgreatest, hpositive⟩, hleast⟩
    exact ⟨hgreatest, hpositive, hleast⟩

/-- What is read of a default are its bytes. -/
theorem byteDigits?_string {digits : String} : byteDigits? (.string s) = some digits ↔
    ∃ bytes, Spells s bytes ∧ digits = String.ofList (upperDigits bytes) := by
  simp only [byteDigits?]
  cases hempty : isEmpty s with
  | true =>
      simp only [if_true, Option.some.injEq]
      constructor
      · rintro rfl
        exact ⟨[], spells_of_isEmpty hempty, rfl⟩
      · rintro ⟨bytes, hs, rfl⟩
        rcases hs.cases_isEmpty with ⟨-, rfl⟩ | ⟨hfalse, -⟩
        · rfl
        · simp [hempty] at hfalse
  | false =>
      simp only [Bool.false_eq_true, if_false, digits?_eq_some]
      refine exists_congr fun bytes => and_congr_left fun _ => ⟨.digits, fun hs => ?_⟩
      rcases hs.cases_isEmpty with ⟨htrue, -⟩ | ⟨-, hs⟩
      · simp [hempty] at htrue
      · exact hs

theorem binaryDefault_of_spells (h : Spells s bytes) : binaryDefault greatest (some (.string s)) =
    if greatest.toInt < bytes.length then .error (.binaryDefaultTooLong bytes.length greatest)
    else .ok (some (.ofBytes bytes)) := by
  have hdigits := byteDigits?_string.mpr ⟨bytes, h, rfl⟩
  have hempty : String.ofList (upperDigits bytes) = "" ↔ bytes = [] := by
    rw [String.ofList_eq_empty_iff, ← List.length_eq_zero_iff, length_upperDigits]
    simp
  simp only [binaryDefault, hdigits, size_upperDigits, hempty]
  split_ifs <;> simp_all [DefaultValue.ofBytes]

theorem binaryDefault_of_not_spells (h : ∀ bytes, ¬Spells s bytes) :
    binaryDefault greatest (some (.string s)) = .error (.binaryDefault (.string s)) := by
  have hdigits : byteDigits? (.string s) = none := by
    rw [Option.eq_none_iff_forall_ne_some]
    intro digits hdigits
    obtain ⟨bytes, hs, -⟩ := byteDigits?_string.mp hdigits
    exact h bytes hs
  simp only [binaryDefault, hdigits]

/-- Where the sizes of a column are in order, its default decides. -/
theorem binary_of_sizesAre (h : c.SizesAre least greatest) (hs : c.defaultValue = some (.string s)) :
    c.binary = (binaryDefault greatest (some (.string s))).map fun default =>
      ⟨c.name, c.nullable, default, .binary least greatest, none⟩ := by
  obtain ⟨hgreatest, hleast⟩ := sizesAre_iff.mp h
  have hdeclared : c.scalarDefault = .ok (some (.string s)) :=
    scalarDefault_eq_ok_some.mpr ⟨⟨hs, by simp⟩, id⟩
  rw [binary, hgreatest]
  simp only [bind, Except.bind, hleast, hdeclared]
  cases binaryDefault greatest (some (.string s)) <;> rfl

theorem binary_eq_ok_iff {column : Column} (h : c.SizesAre least greatest)
    (hs : c.defaultValue = some (.string s)) : c.binary = .ok column ↔
      ∃ bytes, Spells s bytes ∧ bytes.length ≤ greatest.toInt ∧
        column = ⟨c.name, c.nullable, some (.ofBytes bytes), .binary least greatest, none⟩ := by
  rw [binary_of_sizesAre h hs]
  constructor
  · intro hok
    by_cases hspells : ∃ bytes, Spells s bytes
    · obtain ⟨bytes, hbytes⟩ := hspells
      rw [binaryDefault_of_spells hbytes] at hok
      split_ifs at hok with hlong
      · cases hok
      · cases hok
        exact ⟨bytes, hbytes, not_lt.mp hlong, rfl⟩
    · rw [binaryDefault_of_not_spells (not_exists.mp hspells)] at hok
      cases hok
  · rintro ⟨bytes, hbytes, hfits, rfl⟩
    rw [binaryDefault_of_spells hbytes, if_neg (not_lt.mpr hfits)]
    rfl

theorem failsAs_binary_iff {kind : ErrorKind} (h : c.SizesAre least greatest)
    (hs : c.defaultValue = some (.string s)) : FailsAs c.binary kind ↔
      kind = .range ∧ (∃ bytes, IsHex s bytes ∧ greatest.toInt < bytes.length) ∨
        kind = .type ∧ ∀ bytes, ¬Spells s bytes := by
  have hpositive : 1 ≤ greatest.toInt := Int64.le_iff_toInt_le.mp h.positive
  rw [binary_of_sizesAre h hs]
  by_cases hspells : ∃ bytes, Spells s bytes
  · obtain ⟨bytes, hbytes⟩ := hspells
    -- the empty literals are never too long
    have hlong : (∃ bytes, IsHex s bytes ∧ greatest.toInt < bytes.length) ↔ greatest.toInt < bytes.length := by
      constructor
      · rintro ⟨_, hs, hlong⟩
        cases hbytes.unique (.digits hs)
        exact hlong
      · intro hlong
        rcases hbytes.cases_isEmpty with ⟨-, rfl⟩ | ⟨-, hs⟩
        · rw [List.length_nil] at hlong
          omega
        · exact ⟨bytes, hs, hlong⟩
    have hsome : ¬∀ bytes, ¬Spells s bytes := fun hnone => hnone bytes hbytes
    rw [binaryDefault_of_spells hbytes, hlong]
    by_cases hfits : greatest.toInt < bytes.length
    · simp [hfits, hsome, Except.map, Fault.kind, eq_comm]
    · simp [hfits, hsome, Except.map]
  · have hnone := not_exists.mp hspells
    have hshort : ¬∃ bytes, IsHex s bytes ∧ greatest.toInt < bytes.length := by
      rintro ⟨bytes, hs, -⟩
      exact hnone bytes (.digits hs)
    rw [binaryDefault_of_not_spells hnone]
    simp [hnone, hshort, Except.map, Fault.kind, eq_comm]

/-- Another way of writing the same bytes makes no difference. -/
theorem binary_respelled {t : String} (h : c.SizesAre least greatest)
    (hs : c.defaultValue = some (.string s)) (hbytes : Spells s bytes) (ht : Spells t bytes) :
    binary { c with defaultValue := some (.string t) } = c.binary := by
  have h' : SizesAre { c with defaultValue := some (.string t) } least greatest :=
    ⟨h.greatest, h.positive, h.least⟩
  rw [binary_of_sizesAre h hs, binary_of_sizesAre h' rfl, binaryDefault_of_spells hbytes,
    binaryDefault_of_spells ht]

/-- Where the sizes of a binary column are in order, its default is accepted exactly when it spells a byte
string that fits, refused as out of range when its digits stand for too many bytes, and refused for its
type otherwise. Only the bytes count, not how they are written; scripts and descriptors render exactly
them, and what is rendered may be declared again. -/
theorem binary_keeps_bytes (h : c.SizesAre least greatest) (hs : c.defaultValue = some (.string s)) :
    (∀ column, c.binary = .ok column ↔ ∃ bytes, Spells s bytes ∧ bytes.length ≤ greatest.toInt ∧
      column = ⟨c.name, c.nullable, some (.ofBytes bytes), .binary least greatest, none⟩) ∧
    (∀ kind, FailsAs c.binary kind ↔
      kind = .range ∧ (∃ bytes, IsHex s bytes ∧ greatest.toInt < bytes.length) ∨
        kind = .type ∧ ∀ bytes, ¬Spells s bytes) ∧
    ∀ bytes, Spells s bytes →
      (Ddl.literalValue? (Ddl.literal (.ofBytes bytes))).bind StoredValue.content? = some bytes ∧
      (defaultScalar (.ofBytes bytes)).value?.bind StoredValue.content? = some bytes ∧
      ∀ t, Spells t bytes ∨ t = Ddl.literal (.ofBytes bytes) ∨
          defaultScalar (.ofBytes bytes) = .string t →
        binary { c with defaultValue := some (.string t) } = c.binary := by
  refine ⟨fun _ => binary_eq_ok_iff h hs, fun _ => failsAs_binary_iff h hs, fun bytes hbytes => ?_⟩
  obtain ⟨hliteral, text, hscalar, htext⟩ := DefaultValue.spells_renderings hbytes
  obtain ⟨hscript, hdescriptor⟩ := DefaultValue.content?_renderings hbytes
  refine ⟨hscript, hdescriptor, ?_⟩
  rintro t (ht | rfl | ht)
  · exact binary_respelled h hs hbytes ht
  · exact binary_respelled h hs hbytes hliteral
  · cases hscalar.symm.trans ht
    exact binary_respelled h hs hbytes htext

/-- Two bytes that are not written as they are rendered. -/
def beef : ColumnDeclaration :=
  { name := "digest", kind := "binary", maxSize := some (.int 2), defaultValue := some (.string "0xbEeF") }

theorem beef_sizesAre : beef.SizesAre 0 2 :=
  ⟨⟨_, rfl, (by decide : IsSafeInteger 2).int⟩, by decide, .absent⟩

theorem beef_spells : Spells "0xbEeF" [0xbe, 0xef] :=
  .digits ⟨"bEeF", .zero, by decide⟩

theorem binary_keeps_bytes_beef :
    beef.binary = .ok ⟨"digest", false, some (.hex "BEEF"), .binary 0 2, none⟩ ∧
      binary { beef with defaultValue := some (.string "X'BEEF'") } = beef.binary := by
  obtain ⟨haccepted, -, hkept⟩ := binary_keeps_bytes beef_sizesAre rfl
  refine ⟨(haccepted _).mpr ⟨_, beef_spells, by decide, rfl⟩, ?_⟩
  exact (hkept _ beef_spells).2.2 _ (.inr (.inl rfl))

end ColumnDeclaration

end SchemaCompiler
