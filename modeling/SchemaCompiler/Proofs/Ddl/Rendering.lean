import SchemaCompiler.Column.Binary
import SchemaCompiler.Ddl.Emission
import SchemaCompiler.Proofs.Ddl.Clauses
import SchemaCompiler.Proofs.Text.Decimal
import Mathlib

/-! # Scripts are unambiguous

Names may hold any characters, and still the text of a script determines the script. What the emitter writes
without quotes, data types, literals and actions, holds no character that could end it early. -/

namespace SchemaCompiler

namespace Ddl

open Text

/-! ## Tables -/

/-- A part of a table between its parentheses. -/
abbrev Clause :=
  ColumnDefinition ⊕ Constraint

def Clause.print : Clause → List Char :=
  Sum.elim (fun c => c.text.toList) fun k => k.text.toList

def Clause.IsPlain : Clause → Prop :=
  Sum.elim (fun c => c.type.IsPlain) Constraint.IsPlain

/-- The columns of a table and then its constraints. -/
def CreateTable.clauses (t : CreateTable) : List Clause :=
  t.columns.map .inl ++ t.constraints.map .inr

def CreateTable.IsPlain (t : CreateTable) : Prop :=
  ∀ clause ∈ t.clauses, Clause.IsPlain clause

theorem Clause.head?_print (clause : Clause) : ∃ c, (Clause.print clause).head? = some c ∧
    (c = accent ↔ clause.isLeft) ∧ c ≠ ')' := by
  cases clause with
  | inl c =>
      refine ⟨accent, ?_, by simp, by decide⟩
      simp [print, ColumnDefinition.text, toList_quoteIdentifier]
  | inr k =>
      refine ⟨k.initial, k.head?_text, ?_⟩
      cases k <;> exact ⟨by simp [Constraint.initial, accent], by simp [Constraint.initial]⟩

theorem determines_clause : Determines Clause.IsPlain Delimited Clause.print := by
  intro a b ha hb s t hs ht h
  have hleft : a.isLeft = b.isLeft := by
    obtain ⟨c, hc, hca, -⟩ := Clause.head?_print a
    obtain ⟨d, hd, hdb, -⟩ := Clause.head?_print b
    have hhead := congrArg List.head? h
    simp only [List.head?_append, hc, hd, Option.some_or, Option.some.injEq] at hhead
    rw [Bool.eq_iff_iff, ← hca, ← hdb, hhead]
  cases a with
  | inl c =>
      cases b with
      | inl d =>
          obtain ⟨rfl, hst⟩ := determines_columnDefinition ha hb hs ht h
          exact ⟨rfl, hst⟩
      | inr k => simp at hleft
  | inr k =>
      cases b with
      | inl d => simp at hleft
      | inr l =>
          obtain ⟨rfl, hst⟩ := determines_constraint ha hb hs ht h
          exact ⟨rfl, hst⟩

theorem CreateTable.toList_text (t : CreateTable) : t.text.toList =
    "CREATE TABLE ".toList ++ ((quoteIdentifier t.name).toList ++
      (" (".toList ++ items Clause.print t.clauses)) := by
  have hclauses : (t.columns.map (·.text) ++ t.constraints.map (·.text)).map String.toList =
      t.clauses.map Clause.print := by
    simp only [clauses, List.map_append, List.map_map]
    rfl
  rw [← intercalate_append_close, ← hclauses, ← String.toList_intercalate]
  unfold CreateTable.text
  simp only [String.toList_append, List.append_assoc]
  rfl

theorem CreateTable.eq_of_clauses {a b : CreateTable} (hname : a.name = b.name)
    (h : a.clauses = b.clauses) : a = b := by
  have hcolumns : ∀ t : CreateTable, t.clauses.filterMap Sum.getLeft? = t.columns := by
    intro t
    simp [clauses, List.filterMap_append, Function.comp_def]
  have hconstraints : ∀ t : CreateTable, t.clauses.filterMap Sum.getRight? = t.constraints := by
    intro t
    simp [clauses, List.filterMap_append, Function.comp_def]
  have hcolumns' := (hcolumns a).symm.trans ((congrArg _ h).trans (hcolumns b))
  have hconstraints' := (hconstraints a).symm.trans ((congrArg _ h).trans (hconstraints b))
  cases a
  cases b
  simp_all

theorem determines_createTable : Determines CreateTable.IsPlain (fun _ => True)
    fun t => t.text.toList := by
  have hopen : ∀ clause, Clause.IsPlain clause →
      ∃ c rest, Clause.print clause = c :: rest ∧ c ≠ ')' := by
    intro clause _
    obtain ⟨c, hc, -, hne⟩ := Clause.head?_print clause
    obtain ⟨rest, hrest⟩ := List.head?_eq_some_iff.mp hc
    exact ⟨c, rest, hrest, hne⟩
  have hblank : ∀ u : List Char, (" (".toList ++ u).head? ≠ some accent := fun u => by simp [accent]
  intro a b ha hb s t _ _ h
  simp only [CreateTable.toList_text, List.append_assoc, List.append_cancel_left_eq] at h
  obtain ⟨hname, h⟩ := determines_quoteIdentifier trivial trivial (hblank _) (hblank _) h
  obtain ⟨hclauses, hst⟩ := determines_items determines_clause hopen ha hb trivial trivial
    (List.append_cancel_left h)
  exact ⟨CreateTable.eq_of_clauses hname hclauses, hst⟩

/-! ## Scripts -/

/-- The line of a script that creates a table. -/
def tableLine (t : CreateTable) : List Char :=
  ((Statement.createTable t).text ++ "\n").toList

theorem tableLine_eq (t : CreateTable) : tableLine t = t.text.toList ++ (";".toList ++ "\n".toList) := by
  have htext : (Statement.createTable t).text = t.text ++ ";" := rfl
  rw [tableLine, htext, String.toList_append, String.toList_append, List.append_assoc]

theorem determines_tableLine : Determines CreateTable.IsPlain (fun _ => True) tableLine := by
  intro a b ha hb s t _ _ h
  simp only [tableLine_eq, List.append_assoc] at h
  obtain ⟨hab, hst⟩ := determines_createTable ha hb trivial trivial h
  exact ⟨hab, List.append_cancel_left (List.append_cancel_left hst)⟩

/-- What stands in a script between the two places that name the database. -/
def settings (options : Options) : String :=
  " CHARACTER SET " ++ options.charset ++ " COLLATE " ++ options.collation ++ ";" ++ "\n" ++ "USE "

theorem Script.toList_text (options : Options) (d : Schema.Database) :
    (script options d).text.toList =
      "CREATE DATABASE ".toList ++ ((quoteIdentifier d.name).toList ++ ((settings options).toList ++
        ((quoteIdentifier d.name).toList ++ (";".toList ++ ("\n".toList ++
          (d.tables.map createTable).flatMap tableLine))))) := by
  have hcreate : (Statement.createDatabase d.name options.charset options.collation).text =
      "CREATE DATABASE " ++ quoteIdentifier d.name ++ " CHARACTER SET " ++ options.charset ++
      " COLLATE " ++ options.collation ++ ";" := rfl
  have huse : (Statement.use d.name).text = "USE " ++ quoteIdentifier d.name ++ ";" := rfl
  have htables : (d.tables.map fun t => Statement.createTable (createTable t)).flatMap
      (fun statement => (statement.text ++ "\n").toList) =
        (d.tables.map createTable).flatMap tableLine := by
    rw [List.flatMap_map, List.flatMap_map]
    rfl
  unfold Script.text
  rw [String.toList_join, List.flatMap_map, script, List.flatMap_cons, List.flatMap_cons, htables,
    hcreate, huse]
  unfold settings
  simp only [String.toList_append, List.append_assoc]

/-! ## Emitted tables -/

theorem delimits_toString {n : Int64} {c : Char} (hc : c ∈ (toString n).toList) : delimits c = false := by
  rcases mem_toString_int hc with rfl | hc
  · rfl
  · simp only [delimits, Bool.or_eq_false_iff, decide_eq_false_iff_not]
    refine ⟨⟨?_, ?_⟩, ?_⟩ <;> rintro rfl <;> simp at hc

theorem delimits_of_isHexDigit {c : Char} (hc : ByteLiteral.isHexDigit c) : delimits c = false := by
  simp only [delimits, Bool.or_eq_false_iff, decide_eq_false_iff_not]
  refine ⟨⟨?_, ?_⟩, ?_⟩ <;> rintro rfl <;> simp [ByteLiteral.isHexDigit] at hc

theorem isDataType_dataType (t : ColumnType) : IsDataType (dataType t) := by
  have hsize : ∀ size : IntegerSize, IsDataType size.token := by
    intro size
    cases size <;> exact .word (by simp [IntegerSize.token, delimits])
  have hsized : ∀ (keyword : String) (n : Int64), (∀ c ∈ keyword.toList, delimits c = false) →
      IsDataType (sized keyword n) := by
    intro keyword n hkeyword
    refine .sized (keyword.toList ++ '(' :: (toString n).toList) ?_ (by simp) ?_
    · intro c hc
      rcases List.mem_append.mp hc with hc | hc
      · exact hkeyword c hc
      · rcases List.mem_cons.mp hc with rfl | hc
        · rfl
        · exact delimits_toString hc
    · rw [sized, String.toList_append, String.toList_append, String.toList_append,
        List.append_assoc keyword.toList]
      rfl
  cases t with
  | integer size _ _ _ => exact hsize size
  | serial size _ => exact hsize size
  | timestamp _ _ => exact hsize .big
  | string _ maxLength => exact hsized "VARCHAR" maxLength (by simp [delimits])
  | binary minSize maxSize =>
      rw [dataType]
      split
      · exact hsized "BINARY" maxSize (by simp [delimits])
      · exact hsized "VARBINARY" maxSize (by simp [delimits])
  | boolean => exact hsize .tiny
  | code _ => exact hsize .tiny

theorem delimits_literal {v : DefaultValue}
    (h : ∀ digits, v = .hex digits → ∀ d ∈ digits.toList, ByteLiteral.isHexDigit d) :
    ∀ c ∈ (literal v).toList, delimits c = false := by
  cases v with
  | integer n => exact fun c hc => delimits_toString hc
  | empty => simp [literal, delimits]
  | hex digits =>
      intro c hc
      have hquote : ∀ c ∈ "X'".toList ++ "'".toList, delimits c = false := by simp [delimits]
      rw [literal, String.toList_append, String.toList_append] at hc
      simp only [List.mem_append, or_assoc] at hc hquote
      rcases hc with hc | hc | hc
      · exact hquote c (.inl hc)
      · exact delimits_of_isHexDigit (h digits rfl c hc)
      · exact hquote c (.inr hc)

end Ddl

/-- Columns whose defaults, where they are bytes, are written with hexadecimal digits. -/
def Column.HexDefault (c : Column) : Prop :=
  ∀ digits, c.default = some (.hex digits) → ∀ d ∈ digits.toList, ByteLiteral.isHexDigit d

namespace Ddl

theorem isPlain_typeClause {c : Column} (h : c.HexDefault) : (typeClause c).IsPlain := by
  refine ⟨isDataType_dataType c.type, ?_⟩
  intro l hl
  obtain ⟨v, hv, rfl⟩ := Option.map_eq_some_iff.mp hl
  exact delimits_literal fun digits hdigits => h digits (hv.trans (congrArg some hdigits))

theorem isPlain_referenceConstraint? {c : Column} {k : Constraint}
    (h : referenceConstraint? c = some k) : k.IsPlain := by
  have haction : ∀ action : OnDelete, ∀ c ∈ action.sql.toList, closes c = false := by
    intro action
    cases action <;> simp [OnDelete.sql, closes]
  obtain ⟨fk, -, h⟩ := Option.bind_eq_some_iff.mp h
  obtain ⟨action, -, h⟩ := Option.bind_eq_some_iff.mp h
  cases h
  exact haction action

theorem isPlain_createTable {t : Schema.Table} (h : ∀ c ∈ t.columns, c.HexDefault) :
    (createTable t).IsPlain := by
  intro clause hclause
  rcases List.mem_append.mp hclause with hclause | hclause
  · obtain ⟨definition, hdefinition, rfl⟩ := List.mem_map.mp hclause
    obtain ⟨c, hc, rfl⟩ := List.mem_map.mp hdefinition
    exact isPlain_typeClause (h c hc)
  · obtain ⟨k, hk, rfl⟩ := List.mem_map.mp hclause
    rcases List.mem_append.mp hk with hk | hk
    · obtain ⟨i, -, rfl⟩ := List.mem_map.mp hk
      rw [indexConstraint]
      cases i.kind <;> exact trivial
    · obtain ⟨c, -, hk⟩ := List.mem_filterMap.mp hk
      exact isPlain_referenceConstraint? hk

/-- Scripts with one text, for databases whose names are arbitrary, are equal statement by statement, and
a quoted name is read back in front of everything that does not go on with an accent. -/
theorem script_text_injective (options : Options) :
    (∀ d d' : Schema.Database, (∀ t ∈ d.tables, ∀ c ∈ t.columns, c.HexDefault) →
      (∀ t ∈ d'.tables, ∀ c ∈ t.columns, c.HexDefault) →
      (script options d).text = (script options d').text → script options d = script options d') ∧
    ∀ name rest : String, rest.toList.head? ≠ some accent →
      readIdentifier? (quoteIdentifier name ++ rest) = some (name, rest) := by
  refine ⟨?_, fun name rest hrest => readIdentifier?_quoteIdentifier name hrest⟩
  intro d d' hd hd' h
  have hplain : ∀ {d : Schema.Database}, (∀ t ∈ d.tables, ∀ c ∈ t.columns, c.HexDefault) →
      ∀ t ∈ d.tables.map createTable, t.IsPlain := by
    intro d hd statement hstatement
    obtain ⟨t, ht, rfl⟩ := List.mem_map.mp hstatement
    exact isPlain_createTable (hd t ht)
  have hsettings : ∀ u, ((settings options).toList ++ u).head? ≠ some accent := by
    intro u
    have hblank : ∀ v, (" CHARACTER SET ".toList ++ v).head? = some ' ' := head?_words (by rfl)
    unfold settings
    simp only [String.toList_append, List.append_assoc, hblank]
    simp [accent]
  have htext := congrArg String.toList h
  simp only [Script.toList_text, List.append_cancel_left_eq] at htext
  obtain ⟨hname, htext⟩ := determines_quoteIdentifier trivial trivial (hsettings _) (hsettings _) htext
  rw [hname] at htext
  simp only [List.append_cancel_left_eq] at htext
  have htables : d.tables.map createTable = d'.tables.map createTable :=
    Text.eq_of_flatMap_eq determines_tableLine (by simp [tableLine]) (hplain hd) (hplain hd') htext
  have hstatements : ∀ d : Schema.Database,
      d.tables.map (fun t => Statement.createTable (createTable t)) =
        (d.tables.map createTable).map .createTable := by
    intro d
    rw [List.map_map]
    rfl
  rw [script, script, hname, hstatements, hstatements, htables]

/-- A database whose names hold the characters that surround names in a script, with a column of a given
type. -/
def unquoted (t : ColumnType) : Schema.Database :=
  ⟨"a\x60; USE b", .tenant, [⟨"\x60) (", [⟨"on\x60, ", false, some (.integer 1), t, none⟩,
    ⟨"key", true, some (.hex "0aFF"), .binary 2 8, none⟩], [⟨.primary, ["on\x60, ", "key"]⟩]⟩]⟩

theorem script_text_injective_unquoted :
    (script {} (unquoted .boolean)).text = (script {} (unquoted (.code ⟨[⟨1, "ON"⟩]⟩))).text ∧
    script {} (unquoted .boolean) = script {} (unquoted (.code ⟨[⟨1, "ON"⟩]⟩)) ∧
    readIdentifier? (quoteIdentifier "a\x60, " ++ ", \x60b\x60") = some ("a\x60, ", ", \x60b\x60") := by
  have hhex : ∀ type, ∀ t ∈ (unquoted type).tables, ∀ c ∈ t.columns, c.HexDefault := by
    intro type t ht c hc
    cases List.mem_singleton.mp ht
    rcases List.mem_cons.mp hc with rfl | hc
    · intro digits h
      cases h
    · cases List.mem_singleton.mp hc
      intro digits h
      cases h
      simp [ByteLiteral.isHexDigit]
  have htext : (script {} (unquoted .boolean)).text =
      (script {} (unquoted (.code ⟨[⟨1, "ON"⟩]⟩))).text := rfl
  have hinjective := script_text_injective {}
  exact ⟨htext, hinjective.1 _ _ (hhex _) (hhex _) htext, hinjective.2 _ _ (by simp [accent])⟩

end Ddl

end SchemaCompiler
