import SchemaCompiler.Proofs.Artifact.Columns
import SchemaCompiler.Proofs.Column.Enumeration

/-! # The record of a code column

The record shows an enumeration by a table from names to codes and a table from codes to names. Keys are
text, so the codes of the second table are written in decimal. -/

namespace SchemaCompiler

namespace Descriptor

/-- Two tables that show pairs in either direction and are inverse to each other. -/
structure CodeTables (pairs : List (Int64 × String)) (codes names : List (String × Scalar)) : Prop where
  nameToCode : codes = pairs.map fun p => (p.2, .int p.1)
  codeToName : names.map (fun entry => (entry.1.toInt?, entry.2)) =
    pairs.map fun p => (some p.1.toInt, .string p.2)
  nameKeys : (codes.map Prod.fst).Nodup
  codeKeys : (names.map Prod.fst).Nodup
  inverse : ∀ (name : String) (n : Int64),
    codes.lookup name = some (.int n) ↔ names.lookup (toString n) = some (.string name)

/-- A record shows an enumeration by two tables and a list of its codes. -/
structure ColumnRecord.Shows (r : ColumnRecord) (pairs : List (Int64 × String)) (sorted : List (Fin 256)) :
    Prop where
  tables : ∃ codes names, r.field? "nameToCode" = some (.lookup codes) ∧
    r.field? "codeToName" = some (.lookup names) ∧ CodeTables pairs codes names
  codes : r.field? "codes" = some (.list (sorted.map fun n : Fin 256 => .int (n : Nat)))

theorem toString_int_injective {m n : Int} (h : toString m = toString n) : m = n := by
  rw [Int.toString_eq_repr, Int.toString_eq_repr] at h
  exact Option.some.inj (by rw [← Int.toInt?_repr, h, Int.toInt?_repr])

theorem codeTables_of_isValid {domain : CodeDomain} (h : domain.IsValid) :
    CodeTables domain.pairs (domain.values.map fun v => (v.name, .int (v.code : Nat)))
      (domain.values.map fun v => (toString (v.code : Nat), .string v.name)) := by
  obtain ⟨hnames, -, -⟩ := nameToCode_legal h
  obtain ⟨hcodes, -, -⟩ := codeToName_legal h
  refine ⟨?_, ?_, hnames, hcodes, fun name n => ?_⟩
  · rw [CodeDomain.pairs, List.map_map]
    rfl
  · have hread : ∀ v : CodeValue, (toString (v.code : Nat)).toInt? = some v.pair.1.toInt := fun v =>
      (Int.toInt?_repr v.code).trans (congrArg some (toInt_code v.code).symm)
    simp only [CodeDomain.pairs, List.map_map]
    exact List.map_congr_left fun v _ => congrArg (·, Scalar.string v.name) (hread v)
  · rw [lookup_eq_some_iff_of_nodup hnames, lookup_eq_some_iff_of_nodup hcodes, List.mem_map,
      List.mem_map]
    refine exists_congr fun v => and_congr_right fun _ => ?_
    have hcode : toString (v.code : Nat) = toString ((v.code : Nat) : Int64) :=
      congrArg (fun n : Int => toString n) (toInt_code v.code).symm
    have hkey : toString (v.code : Nat) = toString n ↔ ((v.code : Nat) : Int64) = n := by
      rw [hcode]
      exact ⟨fun h => Int64.toInt_inj.mp (toString_int_injective h), congrArg toString⟩
    simp only [Prod.mk.injEq, Scalar.int.injEq, Scalar.string.injEq, hkey]
    exact and_comm

variable {c : Column}

theorem shows_columnRecord {domain : CodeDomain} (htype : c.type = .code domain) (h : domain.IsValid) :
    (columnRecord c).Shows domain.pairs domain.sortedCodes := by
  have hpart : (["nameToCode", "codeToName", "codes"], codeFields c) ∈ parts c := by simp [parts]
  have hfields : codeFields c =
      [("nameToCode", .lookup (domain.values.map fun v => (v.name, .int (v.code : Nat)))),
        ("codeToName", .lookup (domain.values.map fun v => (toString (v.code : Nat), .string v.name))),
        ("codes", .list (domain.sortedCodes.map fun n : Fin 256 => .int (n : Nat)))] := by
    rw [codeFields, Column.codeDomain?, htype]
  have hfield : ∀ key ∈ ["nameToCode", "codeToName", "codes"],
      (columnRecord c).field? key = (codeFields c).lookup key := fun _ => field?_of_part c hpart
  simp only [List.forall_mem_cons, hfields] at hfield
  obtain ⟨hnames, hcodes, hsorted, -⟩ := hfield
  exact ⟨⟨_, _, hnames, hcodes, codeTables_of_isValid h⟩, hsorted⟩

end Descriptor

namespace ColumnDeclaration

variable {c : ColumnDeclaration}

/-- A code column is accepted exactly where it declares an enumeration and a default that is one of its
codes. The compiled column holds the declared pairs, finds them by code and by name, and its record shows
them in either direction. -/
theorem code_bijective :
    ((∃ column, c.code = .ok column) ↔ ∃ pairs default, c.Enumerates pairs ∧ IsEnumeration pairs ∧
      c.CodeDefaultIs pairs default) ∧
    ∀ column, c.code = .ok column ↔ ∃ pairs domain default, c.Enumerates pairs ∧
      IsEnumeration pairs ∧ c.CodeDefaultIs pairs default ∧ domain.Represents pairs ∧
      column = ⟨c.name, c.nullable, default, .code domain, none⟩ ∧
      (Descriptor.columnRecord column).Shows pairs domain.sortedCodes := by
  refine ⟨⟨?_, ?_⟩, fun column => ⟨?_, ?_⟩⟩
  · rintro ⟨column, h⟩
    obtain ⟨domain, default, hpairs, henumeration, hdefault, -⟩ := code_eq_ok_iff.mp h
    exact ⟨_, default, hpairs, henumeration, hdefault⟩
  · rintro ⟨pairs, default, hpairs, henumeration, hdefault⟩
    obtain ⟨domain, rfl⟩ := CodeDomain.exists_pairs_eq henumeration
    exact ⟨_, code_eq_ok_iff.mpr ⟨domain, default, hpairs, henumeration, hdefault, rfl⟩⟩
  · intro h
    obtain ⟨domain, default, hpairs, henumeration, hdefault, rfl⟩ := code_eq_ok_iff.mp h
    obtain ⟨hne, hvalid⟩ := CodeDomain.isEnumeration_pairs_iff.mp henumeration
    exact ⟨_, domain, default, hpairs, henumeration, hdefault, CodeDomain.represents_pairs hvalid hne,
      rfl, Descriptor.shows_columnRecord rfl hvalid⟩
  · rintro ⟨pairs, domain, default, hpairs, henumeration, hdefault, hdomain, rfl, -⟩
    obtain rfl := hdomain.order
    exact code_eq_ok_iff.mpr ⟨domain, default, hpairs, henumeration, hdefault, rfl⟩

end ColumnDeclaration

end SchemaCompiler
