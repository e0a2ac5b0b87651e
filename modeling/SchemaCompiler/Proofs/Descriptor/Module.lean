import SchemaCompiler.Proofs.Descriptor.Evaluation
import SchemaCompiler.Proofs.EsModule.Reader
import Mathlib.Data.List.Nodup

/-! # The text of a descriptor is a module that builds it -/

namespace SchemaCompiler

namespace Descriptor

open EsModule EsModule.State EsModule.Token

/-! ## Constants of tables -/

theorem toList_tableConstant (n : Nat) : (tableConstant n).toList = 't' :: Nat.toDigits 10 n := by
  rw [tableConstant, String.toList_append, toList_toString]
  rfl

theorem tableConstant_injective {n m : Nat} (h : tableConstant n = tableConstant m) : n = m :=
  toString_injective (String.append_right_inj "t" |>.mp h)

/-- What follows the first letter of a table's constant is a digit, as in no reserved word. -/
theorem exists_digit_tableConstant (n : Nat) :
    ∃ c, (tableConstant n).toList[1]? = some c ∧ c.isDigit := by
  cases hdigits : Nat.toDigits 10 n with
  | nil => exact absurd hdigits Nat.toDigits_ne_nil
  | cons c cs =>
      refine ⟨c, by rw [toList_tableConstant, hdigits]; rfl, ?_⟩
      exact isDigit_of_mem_toDigits (hdigits ▸ List.mem_cons_self)

theorem isWord_tableConstant (n : Nat) : IsWord (tableConstant n) := by
  refine ⟨'t', Nat.toDigits 10 n, toList_tableConstant n, by decide, ?_⟩
  intro d hd
  simp [continuesWord, isDigit_of_mem_toDigits hd]

theorem tableConstant_notMem {words : List String} (n : Nat)
    (h : words.all fun w => !w.toList[1]?.any Char.isDigit) : tableConstant n ∉ words := by
  intro hmem
  obtain ⟨c, hc, hdigit⟩ := exists_digit_tableConstant n
  have hnot := List.all_eq_true.mp h _ hmem
  rw [hc, Option.any_some, hdigit] at hnot
  cases hnot

theorem isConstant_tableConstant (n : Nat) : IsConstant (tableConstant n) := by
  refine ⟨isWord_tableConstant n, tableConstant_notMem n ?_⟩
  decide

/-! ## Legal statements -/

theorem legalMembers_append {ms ms' : List (Key × Value)} (h : LegalMembers ms)
    (h' : LegalMembers ms') : LegalMembers (ms ++ ms') := by
  intro m hm
  rcases List.mem_append.mp hm with hm | hm
  · exact h m hm
  · exact h' m hm

theorem legalMembers_header (objectType name : String) : LegalMembers (header objectType name) := by
  have htype : IsWord "_objectType" := by decide
  have hname : IsWord "_name" := by decide
  intro m hm
  rcases List.mem_cons.mp hm with rfl | hm
  · exact ⟨htype, trivial⟩
  · rw [List.mem_singleton.mp hm]
    exact ⟨hname, trivial⟩

/-- Members that are constants are legal when both names are. -/
theorem legalMembers_constants {α : Type} (key constant : α → String) {xs : List α}
    (hkey : ∀ x ∈ xs, IsWord (key x)) (hconstant : ∀ x ∈ xs, IsConstant (constant x)) :
    LegalMembers (xs.map fun x => (.name (key x), .constant (constant x))) := by
  intro m hm
  obtain ⟨x, hx, rfl⟩ := List.mem_map.mp hm
  exact ⟨hkey x hx, hconstant x hx⟩

theorem Field.legal_toValue {constant : String} (h : IsConstant constant) (f : Field) :
    (f.toValue constant).Legal := by
  cases f with
  | scalar x => trivial
  | table => exact h
  | lookup entries =>
      intro m hm
      obtain ⟨entry, -, rfl⟩ := List.mem_map.mp hm
      trivial
  | list items => trivial

theorem ColumnRecord.legalMembers {constant : String} (h : IsConstant constant) {c : ColumnRecord}
    (hc : c.IsLegal) : LegalMembers (c.members constant) := by
  apply legalMembers_append (legalMembers_header "column" c.name)
  intro m hm
  obtain ⟨field, hfield, rfl⟩ := List.mem_map.mp hm
  exact ⟨hc.keys.words _ (List.mem_map_of_mem hfield), Field.legal_toValue h field.2⟩

theorem TableRecord.legalStatements {constant : String} (h : IsConstant constant) {t : TableRecord}
    (ht : t.IsLegal) : ∀ s ∈ t.statements constant, s.Legal := by
  intro s hs
  rw [TableRecord.statements, List.cons_append, List.mem_cons, List.mem_append] at hs
  rcases hs with rfl | hcolumn | hfreeze
  · exact ⟨h, legalMembers_header "table" t.name⟩
  · obtain ⟨c, hc, rfl⟩ := List.mem_map.mp hcolumn
    exact ⟨h, ht.keys.words _ (List.mem_map_of_mem hc), ColumnRecord.legalMembers h (ht.columns c hc)⟩
  · rw [List.mem_singleton.mp hfreeze]
    exact h

theorem isConstant_namespaceName {d : DatabaseRecord}
    (h : d.namespaceName = "core" ∨ d.namespaceName = "inst") : IsConstant d.namespaceName := by
  rcases h with h | h
  · rw [h]
    exact ⟨by decide, by decide⟩
  · rw [h]
    exact ⟨by decide, by decide⟩

theorem DatabaseRecord.isConstant_constants {first : Nat} {d : DatabaseRecord}
    {p : String × TableRecord} (h : p ∈ d.constants first) : IsConstant p.1 := by
  obtain ⟨numbered, -, rfl⟩ := List.mem_map.mp h
  exact isConstant_tableConstant numbered.2

theorem DatabaseRecord.legalStatements {first : Nat} {d : DatabaseRecord} (hd : d.IsLegal)
    (hkind : d.namespaceName = "core" ∨ d.namespaceName = "inst") :
    ∀ s ∈ d.statements first, s.Legal := by
  intro s hs
  rcases List.mem_append.mp hs with htable | hdatabase
  · obtain ⟨p, hp, hs⟩ := List.mem_flatMap.mp htable
    exact TableRecord.legalStatements (DatabaseRecord.isConstant_constants hp)
      (hd.tables p.2 (DatabaseRecord.mem_tables hp)) s hs
  · rw [List.mem_singleton.mp hdatabase]
    refine ⟨isConstant_namespaceName hkind, ?_⟩
    apply legalMembers_append (legalMembers_header "database" d.name)
    apply legalMembers_constants (fun p : String × TableRecord => p.2.name) Prod.fst
    · intro p hp
      exact hd.keys.words _ (List.mem_map_of_mem (DatabaseRecord.mem_tables hp))
    · exact fun p hp => DatabaseRecord.isConstant_constants hp

theorem legal_databaseStatements {first : Nat} {ds : List DatabaseRecord}
    (hlegal : ∀ d ∈ ds, d.IsLegal)
    (hkinds : ∀ d ∈ ds, d.namespaceName = "core" ∨ d.namespaceName = "inst") :
    ∀ s ∈ databaseStatements first ds, s.Legal := by
  induction ds generalizing first with
  | nil => simp [databaseStatements]
  | cons d ds ih =>
      intro s hs
      rcases List.mem_append.mp hs with hs | hs
      · exact DatabaseRecord.legalStatements (hlegal d List.mem_cons_self)
          (hkinds d List.mem_cons_self) s hs
      · exact ih (fun r hr => hlegal r (List.mem_cons_of_mem _ hr))
          (fun r hr => hkinds r (List.mem_cons_of_mem _ hr)) s hs

theorem legal_toModule {d : Descriptor} (hd : d.IsLegal) :
    ∀ s ∈ d.toModule.statements, s.Legal := by
  intro s hs
  rcases List.mem_append.mp hs with hs | hs
  · exact legal_databaseStatements hd.databases hd.kinds s hs
  · rw [List.mem_singleton.mp hs]
    exact legalMembers_constants _ _
      (fun r hr => (isConstant_namespaceName (hd.kinds r hr)).word)
      fun r hr => isConstant_namespaceName (hd.kinds r hr)

/-! ## Declared names -/

/-- The constants of a module that are not those of tables. -/
theorem tableConstant_ne {n : Nat} {name : String}
    (h : name ∈ ["core", "inst", exportConstant]) : tableConstant n ≠ name := by
  have hnone : tableConstant n ∉ ["core", "inst", exportConstant] := by
    apply tableConstant_notMem
    decide
  rintro rfl
  exact hnone h

theorem DatabaseRecord.map_fst_constants (first : Nat) (d : DatabaseRecord) :
    (d.constants first).map Prod.fst =
      (List.range' first d.tables.length).map tableConstant := by
  rw [DatabaseRecord.constants, List.map_map, ← List.zipIdx_map_snd first d.tables, List.map_map]
  rfl

theorem DatabaseRecord.declared (first : Nat) (d : DatabaseRecord) :
    (d.statements first).flatMap Statement.declared =
      (List.range' first d.tables.length).map tableConstant ++ [d.namespaceName] := by
  rw [DatabaseRecord.statements, List.flatMap_append, List.flatMap_assoc,
    ← DatabaseRecord.map_fst_constants]
  congr 1
  rw [List.map_eq_flatMap]
  apply List.flatMap_congr
  intro p _
  exact TableRecord.declared p.1 p.2

theorem mem_declared {first : Nat} {ds : List DatabaseRecord} {name : String}
    (h : name ∈ (databaseStatements first ds).flatMap Statement.declared) :
    (∃ n, first ≤ n ∧ name = tableConstant n) ∨ name ∈ ds.map (·.namespaceName) := by
  induction ds generalizing first with
  | nil => simp [databaseStatements] at h
  | cons d ds ih =>
      rw [databaseStatements, List.flatMap_append, DatabaseRecord.declared, List.append_assoc,
        List.mem_append, List.singleton_append, List.mem_cons] at h
      rw [List.map_cons, List.mem_cons]
      rcases h with htable | hname | hrest
      · obtain ⟨n, hn, rfl⟩ := List.mem_map.mp htable
        exact .inl ⟨n, (List.mem_range'_1.mp hn).1, rfl⟩
      · exact .inr (.inl hname)
      · rcases ih hrest with ⟨n, hn, rfl⟩ | hmem
        · exact .inl ⟨n, by omega, rfl⟩
        · exact .inr (.inr hmem)

/-- The numbers of tables run through all databases, so no constant is declared twice. -/
theorem nodup_declared {first : Nat} {ds : List DatabaseRecord}
    (hkinds : ∀ d ∈ ds, d.namespaceName = "core" ∨ d.namespaceName = "inst")
    (hdistinct : (ds.map (·.namespaceName)).Nodup) :
    ((databaseStatements first ds).flatMap Statement.declared).Nodup := by
  have hother : ∀ name ∈ ds.map (·.namespaceName), ∀ n, tableConstant n ≠ name := by
    intro name hname n
    obtain ⟨d, hd, rfl⟩ := List.mem_map.mp hname
    apply tableConstant_ne
    rcases hkinds d hd with h | h <;> simp [h]
  induction ds generalizing first with
  | nil => simp [databaseStatements]
  | cons d ds ih =>
      have hrest : ((databaseStatements (first + d.tables.length) ds).flatMap
          Statement.declared).Nodup :=
        ih (fun r hr => hkinds r (List.mem_cons_of_mem _ hr)) (List.nodup_cons.mp hdistinct).2
          fun name hname => hother name (List.mem_cons_of_mem _ hname)
      rw [List.map_cons, List.nodup_cons] at hdistinct
      rw [databaseStatements, List.flatMap_append, DatabaseRecord.declared, List.append_assoc,
        List.singleton_append, List.nodup_append, List.nodup_cons]
      refine ⟨?_, ⟨?_, hrest⟩, ?_⟩
      · exact List.Nodup.map (fun _ _ => tableConstant_injective) List.nodup_range'
      · intro hmem
        rcases mem_declared hmem with ⟨n, -, hn⟩ | hmem
        · exact hother d.namespaceName List.mem_cons_self n hn.symm
        · exact hdistinct.1 hmem
      · intro table htable name hname heq
        obtain ⟨n, hn, rfl⟩ := List.mem_map.mp htable
        have hlt := (List.mem_range'_1.mp hn).2
        rcases List.mem_cons.mp hname with rfl | hname
        · exact hother d.namespaceName List.mem_cons_self n heq
        · rcases mem_declared hname with ⟨m, hm, rfl⟩ | hmem
          · have hsame := tableConstant_injective heq
            omega
          · exact hother name (List.mem_cons_of_mem _ hmem) n heq

theorem fresh_toModule {d : Descriptor} (hd : d.IsLegal) : State.empty.Fresh d.toModule.statements := by
  rw [Fresh, toModule, List.flatMap_append]
  change ((databaseStatements 0 d.databases).flatMap Statement.declared ++ [exportConstant] ++
    []).Nodup
  rw [List.append_nil, List.nodup_append]
  refine ⟨nodup_declared hd.kinds hd.distinct, List.nodup_singleton _, ?_⟩
  intro name hname other hother heq
  rw [List.mem_singleton.mp hother] at heq
  rcases mem_declared hname with ⟨n, -, rfl⟩ | hmem
  · exact tableConstant_ne (by simp) heq
  · obtain ⟨r, hr, rfl⟩ := List.mem_map.mp hmem
    rcases hd.kinds r hr with h | h <;> rw [h] at heq <;> exact absurd heq (by decide)

/-! ## Evaluation -/

/-- The module of a legal descriptor runs without an error, and exports the descriptor. -/
theorem evaluate_toModule {d : Descriptor} (hd : d.IsLegal) :
    ∃ heap root, d.toModule.evaluate = .ok (heap, root) ∧ d.IsAt heap root := by
  have hfresh := fresh_toModule hd
  obtain ⟨s₁, hdatabases, hholds⟩ := steps_databases hd.databases hfresh.before
  have hexport : exportConstant ∉ s₁.names :=
    (hfresh.after hdatabases).notMem List.mem_cons_self
  obtain ⟨data, hmembers, hdata⟩ := members_constants DatabaseRecord.namespaceName
    (fun r => r) hholds
  have hkeys : data.map Prod.fst = d.databases.map (·.namespaceName) := by
    rw [keys_of_represents hdata, List.map_map]
    rfl
  have hprototype : prototypeKey ∉ data.map Prod.fst := by
    rw [hkeys]
    intro hmem
    obtain ⟨r, hr, hname⟩ := List.mem_map.mp hmem
    rcases hd.kinds r hr with h | h <;> rw [h] at hname <;> exact absurd hname (by decide)
  have hliteral : literalObject true data = .ok _ :=
    literalObject_of_distinct (hkeys ▸ hd.distinct) hprototype
  have hobject := object_eq_ok.mpr ⟨data, s₁, _, hmembers, hliteral, rfl⟩
  have hgrows := object_grows hobject
  have hextends := Heap.extends_of_isPrefix hgrows.heap
  have hsteps := steps_append hdatabases (steps_singleton (step_exportFrozen hobject hexport))
  refine ⟨_, _, evaluate_eq_ok hsteps List.lookup_cons_self, data,
    ⟨getElem?_allocate s₁ _, hkeys ▸ hd.distinct⟩, ?_⟩
  exact represents_imp (fun _ _ => pointsAt_imp fun _ => DatabaseRecord.IsAt.extends hextends) hdata

/-- The text of a legal descriptor is read as its module. -/
theorem read?_text {d : Descriptor} (hd : d.IsLegal) : EsModule.read? d.text = some d.toModule :=
  EsModule.read?_text (legal_toModule hd)

end Descriptor

end SchemaCompiler
