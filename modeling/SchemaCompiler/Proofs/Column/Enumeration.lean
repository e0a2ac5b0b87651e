import SchemaCompiler.Proofs.Column.Limits

/-! # Code columns

Which enumerations a code column may declare, and that the compiled enumeration pairs the same codes with the
same names, whichever way it is asked. -/

namespace SchemaCompiler

/-! ## Enumerations -/

/-- Pairs of codes and names that a code column may enumerate. -/
structure IsEnumeration (pairs : List (Int64 × String)) : Prop where
  nonempty : pairs ≠ []
  byte : ∀ p ∈ pairs, 0 ≤ p.1 ∧ p.1 ≤ 255
  named : ∀ p ∈ pairs, Identifier.code.Matches p.2
  codes : (pairs.map Prod.fst).Nodup
  names : (pairs.map Prod.snd).Nodup

namespace CodeDomain

/-- The pairs of a domain in declaration order. -/
def pairs (d : CodeDomain) : List (Int64 × String) :=
  d.values.map (·.pair)

/-- A domain holds pairs in their order, finds each of them by its code and by its name, and lists their
codes in ascending order. -/
structure Represents (d : CodeDomain) (pairs : List (Int64 × String)) : Prop where
  order : d.pairs = pairs
  codeOf : ∀ (name : String) (n : Fin 256), d.codeOf? name = some n ↔ (((n : Nat) : Int64), name) ∈ pairs
  nameOf : ∀ (name : String) (n : Fin 256), d.nameOf? n = some name ↔ (((n : Nat) : Int64), name) ∈ pairs
  contains : ∀ n : Int64, d.contains n ↔ ∃ name, (n, name) ∈ pairs
  ascending : d.sortedCodes.Pairwise (· < ·)
  sorted : ∀ n : Fin 256, n ∈ d.sortedCodes ↔ ∃ name, (((n : Nat) : Int64), name) ∈ pairs
  highest : d.sortedCodes.getLast? = some d.highest

end CodeDomain

theorem CodeValue.pair_inj {v w : CodeValue} : v.pair = w.pair ↔ v = w := by
  refine ⟨fun h => ?_, congrArg pair⟩
  obtain ⟨n, s⟩ := v
  obtain ⟨m, t⟩ := w
  obtain ⟨hcode, hname⟩ := Prod.mk.inj h
  obtain rfl : n = m := natCast_injective hcode
  obtain rfl : s = t := hname
  rfl

/-- An integer of one byte and a name are the pair of one value. -/
theorem CodeValue.exists_pair {p : Int64 × String} (hleast : 0 ≤ p.1) (hgreatest : p.1 ≤ 255) :
    ∃ v : CodeValue, v.pair = p := by
  obtain ⟨n, name⟩ := p
  have hkept : ((n.toNatClampNeg % 256 : Nat) : Int64) = n := natCast_of_isCode hleast hgreatest
  exact ⟨⟨⟨n.toNatClampNeg % 256, Nat.mod_lt _ (by decide)⟩, name⟩, congrArg (·, name) hkept⟩

namespace CodeDomain

variable {d : CodeDomain} {name : String} {code : Fin 256} {n : Int64}

theorem mem_pairs : (((code : Nat) : Int64), name) ∈ d.pairs ↔ ⟨code, name⟩ ∈ d.values := by
  have hpair : (((code : Nat) : Int64), name) = (⟨code, name⟩ : CodeValue).pair := rfl
  rw [pairs, hpair, List.mem_map_of_injective fun _ _ => CodeValue.pair_inj.mp]

theorem codes_nodup_iff : (d.pairs.map Prod.fst).Nodup ↔ (d.values.map (·.code)).Nodup := by
  have hinj : Function.Injective fun code : Fin 256 => ((code : Nat) : Int64) := fun _ _ h =>
    natCast_injective h
  rw [← List.nodup_map_iff hinj, pairs, List.map_map, List.map_map]
  rfl

theorem map_snd_pairs : d.pairs.map Prod.snd = d.values.map (·.name) := by
  rw [pairs, List.map_map]
  rfl

/-- What the rule checks of an enumeration, said of its pairs. -/
theorem isEnumeration_pairs_iff :
    IsEnumeration d.pairs ↔ d.values ≠ [] ∧ d.IsValid := by
  constructor
  · intro h
    refine ⟨fun hnil => h.nonempty (by simp [pairs, hnil]), codes_nodup_iff.mp h.codes,
      map_snd_pairs ▸ h.names, fun v hv => ?_⟩
    exact Identifier.accepts_iff_matches.mpr (h.named v.pair (List.mem_map_of_mem hv))
  · rintro ⟨hne, h⟩
    refine ⟨by simpa [pairs] using hne, ?_, ?_, codes_nodup_iff.mpr h.codes, map_snd_pairs ▸ h.names⟩
    · intro p hp
      obtain ⟨v, -, rfl⟩ := List.mem_map.mp hp
      exact isCode_natCast v.code
    · intro p hp
      obtain ⟨v, hv, rfl⟩ := List.mem_map.mp hp
      exact Identifier.accepts_iff_matches.mp (h.accepted v hv)

/-! ## Lookups -/

theorem codeOf?_eq_some (h : d.IsValid) : d.codeOf? name = some code ↔ ⟨code, name⟩ ∈ d.values := by
  rw [codeOf?, Option.map_eq_some_iff]
  simp only [find?_eq_some_iff_of_nodup h.names]
  constructor
  · rintro ⟨v, ⟨hv, rfl⟩, rfl⟩
    exact hv
  · intro hv
    exact ⟨_, ⟨hv, rfl⟩, rfl⟩

theorem nameOf?_eq_some (h : d.IsValid) : d.nameOf? code = some name ↔ ⟨code, name⟩ ∈ d.values := by
  rw [nameOf?, Option.map_eq_some_iff]
  simp only [find?_eq_some_iff_of_nodup h.codes]
  constructor
  · rintro ⟨v, ⟨hv, rfl⟩, rfl⟩
    exact hv
  · intro hv
    exact ⟨_, ⟨hv, rfl⟩, rfl⟩

theorem contains_iff : d.contains n ↔ ∃ name, (n, name) ∈ d.pairs := by
  simp only [contains, List.any_eq_true, decide_eq_true_eq, pairs, List.mem_map, CodeValue.pair]
  constructor
  · rintro ⟨v, hv, rfl⟩
    exact ⟨v.name, v, hv, rfl⟩
  · rintro ⟨name, v, hv, heq⟩
    exact ⟨v, hv, (Prod.mk.inj heq).1⟩

/-! ## The codes in order -/

theorem mem_sortedCodes : code ∈ d.sortedCodes ↔ ∃ name, ⟨code, name⟩ ∈ d.values := by
  rw [sortedCodes, List.mem_mergeSort, List.mem_map]
  constructor
  · rintro ⟨v, hv, rfl⟩
    exact ⟨v.name, hv⟩
  · rintro ⟨name, hv⟩
    exact ⟨_, hv, rfl⟩

theorem sortedCodes_ascending (h : d.IsValid) : d.sortedCodes.Pairwise (· < ·) := by
  have hle : d.sortedCodes.Pairwise (· ≤ ·) := by
    simpa only [sortedCodes, decide_eq_true_eq] using
      @List.pairwise_mergeSort _ (fun a b : Fin 256 => decide (a ≤ b))
        (fun a b c => by simpa using le_trans) (fun a b => by simpa using le_total a b)
        (d.values.map (·.code))
  have hne : d.sortedCodes.Pairwise (· ≠ ·) := (List.mergeSort_perm _ _).nodup_iff.mpr h.codes
  exact (hle.and hne).imp fun h => lt_of_le_of_ne h.1 h.2

/-- The highest code is one of the codes, and none is higher. -/
theorem highest_spec (h : d.values ≠ []) :
    d.highest ∈ d.sortedCodes ∧ ∀ n ∈ d.sortedCodes, n ≤ d.highest := by
  have hstep : (fun top code : Fin 256 => if top ≤ code then code else top) = max := by
    funext top code
    exact (max_def top code).symm
  obtain ⟨top, htop⟩ : ∃ top, (d.values.map (·.code)).max? = some top :=
    Option.isSome_iff_exists.mp (by simpa [List.isSome_max?_iff] using h)
  have hhighest : d.highest = top := by
    rw [highest, hstep, List.foldl_max, htop, Option.getD_some]
    exact max_eq_right (Fin.zero_le top)
  rw [hhighest]
  simpa [sortedCodes] using List.max?_eq_some_iff.mp htop

theorem getLast?_sortedCodes (h : d.IsValid) (hne : d.values ≠ []) :
    d.sortedCodes.getLast? = some d.highest := by
  obtain ⟨hmem, hle⟩ := highest_spec hne
  obtain ⟨before, last, hsplit⟩ :=
    (List.eq_nil_or_concat d.sortedCodes).resolve_left (List.ne_nil_of_mem hmem)
  rw [List.concat_eq_append] at hsplit
  have hascending := sortedCodes_ascending h
  rw [hsplit] at hmem hle hascending ⊢
  obtain ⟨-, -, hlast⟩ := List.pairwise_append.mp hascending
  have hgreatest : d.highest ≤ last := by
    rcases List.mem_append.mp hmem with hmem | hmem
    · exact (hlast _ hmem last (by simp)).le
    · exact (List.mem_singleton.mp hmem).le
  rw [List.getLast?_concat, le_antisymm hgreatest (hle last (by simp))]

theorem represents_pairs (h : d.IsValid) (hne : d.values ≠ []) : d.Represents d.pairs where
  order := rfl
  codeOf _ _ := by rw [codeOf?_eq_some h, mem_pairs]
  nameOf _ _ := by rw [nameOf?_eq_some h, mem_pairs]
  contains _ := contains_iff
  ascending := sortedCodes_ascending h
  sorted _ := by simp only [mem_sortedCodes, mem_pairs]
  highest := getLast?_sortedCodes h hne

theorem exists_pairs_eq {pairs : List (Int64 × String)} (h : IsEnumeration pairs) :
    ∃ d : CodeDomain, d.pairs = pairs := by
  obtain ⟨values, hvalues⟩ := exists_forall₂_iff.mpr fun p hp =>
    CodeValue.exists_pair (h.byte p hp).1 (h.byte p hp).2
  have hpairs : pairs.map id = values.map (·.pair) :=
    map_eq_map_of_forall₂ hvalues fun _ _ hpair => hpair.symm
  exact ⟨⟨values⟩, hpairs.symm.trans (List.map_id pairs)⟩

end CodeDomain

/-! ## The rule -/

namespace ColumnDeclaration

variable {c : ColumnDeclaration} {column : Column} {pairs : List (Int64 × String)}

/-- The pairs that a code column declares, in their order. -/
def Enumerates (c : ColumnDeclaration) (pairs : List (Int64 × String)) : Prop :=
  ∃ ds, c.values = some ds ∧ List.Forall₂ CodeDeclaration.Denotes ds pairs

/-- The default of a code column is one of its codes. -/
def CodeDefaultIs (c : ColumnDeclaration) (pairs : List (Int64 × String)) : Option DefaultValue → Prop :=
  c.DefaultAmong fun n => ∃ name, (n, name) ∈ pairs

theorem codeDefaultIs_iff {domain : CodeDomain} {default : Option DefaultValue} :
    (∃ declared, c.scalarDefault = .ok declared ∧ codeDefault domain declared = .ok default) ↔
      c.CodeDefaultIs domain.pairs default := by
  simp only [codeDefault_eq_ok, CodeDomain.contains_iff, defaultAmong_iff, CodeDefaultIs]

theorem enumerates_pairs_iff {domain : CodeDomain} :
    c.Enumerates domain.pairs ∧ domain.values ≠ [] ↔ c.values.getD [] ≠ [] ∧
      List.Forall₂ (fun d v => d.Denotes v.pair) (c.values.getD []) domain.values := by
  simp only [Enumerates, CodeDomain.pairs, List.forall₂_map_right_iff]
  constructor
  · rintro ⟨⟨ds, hds, hall⟩, hne⟩
    rw [hds, Option.getD_some]
    refine ⟨?_, hall⟩
    rintro rfl
    exact hne (List.forall₂_nil_left_iff.mp hall)
  · cases hvalues : c.values with
    | none => simp
    | some ds =>
        rw [Option.getD_some]
        rintro ⟨hne, hall⟩
        refine ⟨⟨ds, rfl, hall⟩, fun hnil => hne ?_⟩
        exact List.forall₂_nil_right_iff.mp (hnil ▸ hall)

/-- The rule of code columns, said of the pairs that a column declares. -/
theorem code_eq_ok_iff : c.code = .ok column ↔ ∃ domain default, c.Enumerates domain.pairs ∧
    IsEnumeration domain.pairs ∧ c.CodeDefaultIs domain.pairs default ∧
      column = ⟨c.name, c.nullable, default, .code domain, none⟩ := by
  simp only [code_eq_ok, codeValues_eq_ok isValid_nil, ← codeDefaultIs_iff,
    CodeDomain.isEnumeration_pairs_iff]
  constructor
  · rintro ⟨values, declared, default, hne, ⟨_, rfl, hall, hvalid⟩, hdeclared, hdefault, rfl⟩
    obtain ⟨hpairs, hvalues⟩ := enumerates_pairs_iff.mpr ⟨hne, hall⟩
    exact ⟨⟨_⟩, default, hpairs, ⟨hvalues, hvalid⟩, ⟨declared, hdeclared, hdefault⟩, rfl⟩
  · rintro ⟨⟨values⟩, default, hpairs, ⟨hvalues, hvalid⟩, ⟨declared, hdeclared, hdefault⟩, rfl⟩
    obtain ⟨hne, hall⟩ := enumerates_pairs_iff.mp ⟨hpairs, hvalues⟩
    exact ⟨values, declared, default, hne, ⟨values, rfl, hall, hvalid⟩, hdeclared, hdefault, rfl⟩

end ColumnDeclaration

end SchemaCompiler
