import SchemaCompiler.Json.Record
import SchemaCompiler.Proofs.Json.Storable
import SchemaCompiler.Proofs.Json.Word
import SchemaCompiler.Proofs.Outcome

/-! # Records are read back

What a field gives when a record is read, and what it gives when the record was written before. -/

namespace SchemaCompiler

namespace Json

variable {α : Type} {members : List (String × Json)} {key : String} {decode : Json → Option α}
  {encode : α → Json} {a : α} {P : Binary64 → Prop} {depth : Nat}

/-! ## Members by their keys -/

theorem lookup_cons (k : String) (v : Json) (members : List (String × Json)) :
    List.lookup key ((k, v) :: members) = if key = k then some v else members.lookup key := by
  by_cases hkey : key = k
  · rw [hkey, List.lookup_cons_self, if_pos rfl]
  · rw [List.lookup_cons, beq_eq_false_iff_ne.mpr hkey, if_neg hkey]

theorem lookup_optionalMember (k : String) (x : Option α) :
    (optionalMember key encode x).lookup k = if k = key then x.map encode else none := by
  cases x with
  | none => simp [optionalMember]
  | some a => rw [optionalMember, lookup_cons, Option.map_some, List.lookup_nil]

theorem keys_optionalMember (x : Option α) :
    List.Sublist ((optionalMember key encode x).map Prod.fst) [key] := by
  cases x with
  | none => exact List.nil_sublist _
  | some a => exact List.Sublist.refl _

theorem forall_optionalMember {Q : Json → Prop} {x : Option α} (h : ∀ a, x = some a → Q (encode a)) :
    ∀ member ∈ optionalMember key encode x, Q member.2 := by
  cases x with
  | none => exact List.forall_mem_nil _
  | some a => exact List.forall_mem_singleton.mpr (h a rfl)

/-! ## Fields that were read -/

/-- The values of the members that a record gives lie one level deeper. -/
theorem storable_of_members? {fields : List String} {v : Json} (h : v.Storable P depth)
    (hmembers : v.members? fields = some members) :
    ∃ inner, depth = inner + 1 ∧ ∀ member ∈ members, member.2.Storable P inner := by
  cases h with
  | null | bool | number | string => cases hmembers
  | array hitems =>
      simp only [members?] at hmembers
      split at hmembers
      · cases hmembers
        exact ⟨_, rfl, fun member hm => hitems _ (List.of_mem_zip hm).2⟩
      · cases hmembers
  | object _ hvalues =>
      cases hmembers
      exact ⟨_, rfl, hvalues⟩

theorem exists_of_required {Q : Json → Prop} (hQ : ∀ member ∈ members, Q member.2)
    (h : required members key decode = some a) : ∃ v, Q v ∧ decode v = some a := by
  obtain ⟨v, hlookup, hdecode⟩ := Option.bind_eq_some_iff.mp h
  exact ⟨v, hQ _ (mem_of_lookup hlookup), hdecode⟩

theorem exists_of_defaulted {Q : Json → Prop} (hQ : ∀ member ∈ members, Q member.2) {absent : α}
    (h : defaulted members key decode absent = some a) : a = absent ∨ ∃ v, Q v ∧ decode v = some a := by
  unfold defaulted at h
  split at h
  · exact .inl (Option.some.inj h).symm
  · next v hlookup => exact .inr ⟨v, hQ _ (mem_of_lookup hlookup), h⟩

theorem exists_of_optional {Q : Json → Prop} (hQ : ∀ member ∈ members, Q member.2) {x : Option α}
    (h : optional members key decode = some x) (hx : x = some a) :
    ∃ v, Q v ∧ v ≠ .null ∧ decode v = some a := by
  subst hx
  unfold optional at h
  split at h
  · cases h
  · cases h
  · next v hnull hlookup =>
      obtain ⟨b, hdecode, heq⟩ := Option.map_eq_some_iff.mp h
      cases heq
      exact ⟨v, hQ _ (mem_of_lookup hlookup), hnull, hdecode⟩

theorem mapM_eq_some {β : Type} {f : α → Option β} {as : List α} {bs : List β} :
    as.mapM f = some bs ↔ List.Forall₂ (fun a b => f a = some b) as bs := by
  induction as generalizing bs with
  | nil => cases bs <;> simp
  | cons a as ih =>
      rw [List.mapM_cons]
      simp only [bind, Option.bind_eq_some_iff, pure, Option.some.injEq, ih]
      constructor
      · rintro ⟨b, hb, bs', hbs, rfl⟩
        exact .cons hb hbs
      · rintro (_ | ⟨hb, hbs⟩)
        exact ⟨_, hb, _, hbs, rfl⟩

/-- The items of a list were read from values one level deeper. -/
theorem exists_of_list? {v : Json} {as : List α} (hv : v.Storable P depth) (h : list? decode v = some as) :
    ∃ inner, depth = inner + 1 ∧ ∀ a ∈ as, ∃ w, w.Storable P inner ∧ decode w = some a := by
  cases hv with
  | null | bool | number | string | object => cases h
  | array hitems =>
      refine ⟨_, rfl, fun a ha => ?_⟩
      obtain ⟨w, hw, hdecode⟩ := exists_of_mem_right (mapM_eq_some.mp h) ha
      exact ⟨w, hitems w hw, hdecode⟩

theorem storable_ofList {as : List α} (h : ∀ a ∈ as, (encode a).Storable P depth) :
    (ofList encode as).Storable P (depth + 1) := by
  refine .array fun v hv => ?_
  obtain ⟨a, ha, rfl⟩ := List.mem_map.mp hv
  exact h a ha

/-! ## Fields that were written -/

/-- A field that is there leaves the rest of the record to be read. -/
theorem bind_of_some {β : Type} {x : Option α} {f : α → Option β} {b : β} (hx : x = some a)
    (h : f a = some b) : (x >>= f) = some b := by
  rw [hx]
  exact h

theorem required_of_lookup {v : Json} (hlookup : members.lookup key = some v) (hread : decode v = some a) :
    required members key decode = some a := by
  rw [required, hlookup, Option.bind_some, hread]

theorem defaulted_of_lookup {v : Json} {absent : α} (hlookup : members.lookup key = some v)
    (hread : decode v = some a) : defaulted members key decode absent = some a := by
  rw [defaulted, hlookup]
  exact hread

theorem optional_of_lookup {x : Option α} (hlookup : members.lookup key = x.map encode)
    (hread : ∀ a, x = some a → encode a ≠ .null ∧ decode (encode a) = some a) :
    optional members key decode = some x := by
  unfold optional
  cases x with
  | none => simp [hlookup]
  | some a =>
      obtain ⟨hnull, hdecode⟩ := hread a rfl
      rw [hlookup]
      simp [hdecode]

theorem optional_string {x : Option String} (hlookup : members.lookup key = x.map .string) :
    optional members key string? = some x :=
  optional_of_lookup hlookup fun _ _ => ⟨by simp, rfl⟩

theorem list?_ofList {as : List α} (h : ∀ a ∈ as, decode (encode a) = some a) :
    list? decode (ofList encode as) = some as := by
  rw [ofList, list?, mapM_eq_some, List.forall₂_map_left_iff, List.forall₂_same]
  exact h

theorem optional_orNull {x : Option α} (hlookup : members.lookup key = some (orNull encode x))
    (hnull : decode .null = none) (hread : ∀ a, x = some a → decode (encode a) = some a) :
    optional members key decode = some x := by
  cases x with
  | none => rw [optional, hlookup, orNull]
  | some a =>
      have hsome := hread a rfl
      have hpresent : encode a ≠ .null := fun hnone => by
        rw [hnone, hnull] at hsome
        cases hsome
      rw [optional, hlookup, orNull]
      simp [hsome]

theorem storable_orNull {x : Option α} (h : ∀ a, x = some a → (encode a).Storable P depth) :
    (orNull encode x).Storable P depth := by
  cases x with
  | none => exact .null
  | some a => exact h a rfl

/-! ## Numbers -/

theorem storable_int (n : Int64) : (int n).Storable P depth :=
  .number (realIs_ofInt64 n)

theorem storable_nat (n : Nat) : (nat n).Storable P depth :=
  .number trivial

theorem int?_int (n : Int64) : int? (int n) = some n :=
  Number.asInt64?_ofInt64 n

theorem nat?_nat {n : Nat} (h : Word64.fitsUnsigned n) : nat? (nat n) = some n :=
  congrArg some (UInt64.toNat_ofNat_of_lt' (Word64.fitsUnsigned_iff.mp h))

/-! ## Reading back -/

/-- What is read from a value of some depth is written within that depth and read back from there. -/
def ReadsBack (P : Binary64 → Prop) (depth : Nat) (decode : Json → Option α) (encode : α → Json) : Prop :=
  ∀ v a, v.Storable P depth → decode v = some a → (encode a).Storable P depth ∧ decode (encode a) = some a

theorem ReadsBack.list? (h : ReadsBack P depth decode encode) :
    ReadsBack P (depth + 1) (list? decode) (ofList encode) := by
  intro v as hv hread
  obtain ⟨inner, hinner, hitems⟩ := exists_of_list? hv hread
  obtain rfl := Nat.succ_injective hinner
  have hback : ∀ a ∈ as, (encode a).Storable P depth ∧ decode (encode a) = some a := by
    intro a ha
    obtain ⟨w, hw, hdecode⟩ := hitems a ha
    exact h w a hw hdecode
  exact ⟨storable_ofList fun a ha => (hback a ha).1, list?_ofList fun a ha => (hback a ha).2⟩

/-- A list that was left out is written as an empty array, which needs a level of its own. -/
theorem ReadsBack.defaulted_list? (h : ReadsBack P depth decode encode) {as : List α}
    (hvalues : ∀ member ∈ members, member.2.Storable P (depth + 1))
    (hread : defaulted members key (Json.list? decode) [] = some as) :
    (ofList encode as).Storable P (depth + 1) ∧ Json.list? decode (ofList encode as) = some as := by
  rcases exists_of_defaulted hvalues hread with rfl | ⟨v, hv, hlist⟩
  · exact ⟨storable_ofList (by simp), rfl⟩
  · exact h.list? v as hv hlist

end Json

end SchemaCompiler
