import SchemaCompiler.Proofs.Json.Record

/-! # Encodings of records

Which JSON values a record may be written as, said without reading them: a field stands under its key in an
object and at its place in an array. -/

namespace SchemaCompiler

namespace Json

variable {α : Type}

/-! ## Encodings -/

/-- A value has one of the two shapes of a record with so many fields. -/
def IsRecord (count : Nat) : Json → Prop
  | .object _ => True
  | .array items => items.length ≤ count
  | _ => False

/-- What a record shows for the field of a place and a key. -/
def field? (place : Nat) (key : String) : Json → Option Json
  | .object members => members.lookup key
  | .array items => items[place]?
  | _ => none

/-- A value is written by a function. -/
def Is (encode : α → Json) (a : α) (v : Json) : Prop :=
  v = encode a

/-- Items are written one by one. -/
def ListOf (R : α → Json → Prop) (as : List α) (v : Json) : Prop :=
  ∃ items, v = .array items ∧ List.Forall₂ R as items

/-- A field that has to be written. -/
inductive Required (R : α → Json → Prop) (a : α) : Option Json → Prop where
  | written {v} (h : R a v) : Required R a (some v)

/-- A field that may be left out where it holds its default. -/
inductive Defaulted (R : α → Json → Prop) (absent : α) : α → Option Json → Prop where
  | omitted : Defaulted R absent absent none
  | written {a v} (h : R a v) : Defaulted R absent a (some v)

/-- A field that is left out or null where it is absent. -/
inductive Optional (R : α → Json → Prop) : Option α → Option Json → Prop where
  | omitted : Optional R none none
  | null : Optional R none (some .null)
  | written {a v} (h : R a v) : Optional R (some a) (some v)

/-! ## Shapes of records -/

variable {fields : List String} {members : List (String × Json)} {key : String} {place : Nat} {v : Json}

theorem isRecord_iff {count : Nat} (hcount : fields.length = count) :
    v.IsRecord count ↔ ∃ members, v.members? fields = some members := by
  subst hcount
  cases v with
  | null | bool | number | string | object => simp [IsRecord, members?]
  | array items => by_cases h : items.length ≤ fields.length <;> simp [IsRecord, members?, h]

theorem lookup_zip (hnodup : fields.Nodup) (hkey : fields[place]? = some key) (items : List Json) :
    (fields.zip items).lookup key = items[place]? := by
  induction fields generalizing place items with
  | nil => simp at hkey
  | cons field fields ih =>
      cases items with
      | nil => simp
      | cons item items =>
          rw [List.zip_cons_cons, lookup_cons]
          rw [List.nodup_cons] at hnodup
          cases place with
          | zero =>
              rw [List.getElem?_cons_zero, Option.some.injEq] at hkey
              rw [if_pos hkey.symm, List.getElem?_cons_zero]
          | succ place =>
              rw [List.getElem?_cons_succ] at hkey
              have hne : key ≠ field := fun h => hnodup.1 (h ▸ List.mem_of_getElem? hkey)
              rw [if_neg hne, List.getElem?_cons_succ, ih hnodup.2 hkey]

/-- The members of a record are what it shows. -/
theorem lookup_of_members? (hnodup : fields.Nodup) (h : v.members? fields = some members)
    (place : Nat) (key : String) (hkey : fields[place]? = some key) :
    members.lookup key = v.field? place key := by
  cases v with
  | null | bool | number | string => cases h
  | object => exact congrArg (List.lookup key) (Option.some.inj h).symm
  | array items =>
      rw [members?] at h
      split at h
      · cases h
        exact lookup_zip hnodup hkey items
      · cases h

/-! ## Scalars and lists -/

variable {decode : Json → Option α} {R : α → Json → Prop} {P : α → Prop} {slot : Option Json}

theorem kept_eq_some {w : Json} : some v = some w ↔ Is id w v :=
  Option.some_inj

theorem string?_eq_some {s : String} : string? v = some s ↔ Is .string s v := by
  cases v <;> simp [string?, Is]

theorem bool?_eq_some {b : Bool} : bool? v = some b ↔ Is .bool b v := by
  cases v <;> simp [bool?, Is]

theorem list?_eq_some (hread : ∀ v a, decode v = some a ↔ R a v) {as : List α} :
    list? decode v = some as ↔ ListOf R as v := by
  have hitems : ∀ items : List Json, items.mapM decode = some as ↔ List.Forall₂ R as items := by
    intro items
    simp only [mapM_eq_some, hread]
    exact ⟨List.Forall₂.flip, List.Forall₂.flip⟩
  cases v with
  | array items => simp [list?, ListOf, hitems]
  | null | bool | number | string | object => simp [list?, ListOf]

theorem not_listOf_null {as : List α} : ¬ListOf R as .null := by
  rintro ⟨items, h, -⟩
  cases h

/-- A list of items that keep a promise is a list that keeps it throughout. -/
theorem listOf_and_iff {as : List α} :
    ListOf (fun a v => P a ∧ R a v) as v ↔ (∀ a ∈ as, P a) ∧ ListOf R as v := by
  simp only [ListOf, List.forall₂_and_left]
  constructor
  · rintro ⟨items, rfl, hP, hR⟩
    exact ⟨hP, items, rfl, hR⟩
  · rintro ⟨hP, items, rfl, hR⟩
    exact ⟨items, rfl, hP, hR⟩

theorem defaulted_listOf_iff {as : List α} :
    Defaulted (ListOf fun a v => P a ∧ R a v) [] as slot ↔
      (∀ a ∈ as, P a) ∧ Defaulted (ListOf R) [] as slot := by
  constructor
  · rintro (_ | h)
    · exact ⟨List.forall_mem_nil _, .omitted⟩
    · obtain ⟨hP, hR⟩ := listOf_and_iff.mp h
      exact ⟨hP, .written hR⟩
  · rintro ⟨hP, _ | h⟩
    · exact .omitted
    · exact .written (listOf_and_iff.mpr ⟨hP, h⟩)

/-- Where each item can be exchanged for one that keeps a promise, so can the items of a list. -/
theorem Defaulted.exists_listOf (hitem : ∀ a v, R a v → ∃ b, P b ∧ R b v) {as : List α}
    (h : Defaulted (ListOf R) [] as slot) :
    ∃ bs, (∀ b ∈ bs, P b) ∧ Defaulted (ListOf R) [] bs slot := by
  cases h with
  | omitted => exact ⟨[], List.forall_mem_nil _, .omitted⟩
  | written h =>
      obtain ⟨items, rfl, hall⟩ := h
      obtain ⟨bs, hbs⟩ := exists_forall₂_iff.mpr fun v hv =>
        let ⟨a, _, ha⟩ := exists_of_mem_right hall hv
        hitem a v ha
      obtain ⟨hP, hR⟩ := (List.forall₂_and_left ..).mp hbs.flip
      exact ⟨bs, hP, .written ⟨items, rfl, hR⟩⟩

/-! ## Fields that are read -/

theorem required_iff (hslot : members.lookup key = slot) {a : α}
    (hread : ∀ v, decode v = some a ↔ R a v) :
    required members key decode = some a ↔ Required R a slot := by
  rw [required, hslot, Option.bind_eq_some_iff]
  constructor
  · rintro ⟨v, rfl, h⟩
    exact .written ((hread v).mp h)
  · rintro ⟨h⟩
    exact ⟨_, rfl, (hread _).mpr h⟩

theorem defaulted_iff (hslot : members.lookup key = slot) {absent a : α}
    (hread : ∀ v a, decode v = some a ↔ R a v) :
    defaulted members key decode absent = some a ↔ Defaulted R absent a slot := by
  rw [defaulted, hslot]
  constructor
  · intro h
    split at h
    · cases h
      exact .omitted
    · exact .written ((hread _ _).mp h)
  · rintro (_ | h)
    · rfl
    · exact (hread _ _).mpr h

theorem defaulted_list_iff (hslot : members.lookup key = slot) {as : List α}
    (hread : ∀ v a, decode v = some a ↔ R a v) :
    defaulted members key (list? decode) [] = some as ↔ Defaulted (ListOf R) [] as slot :=
  defaulted_iff hslot fun _ _ => list?_eq_some hread

theorem optional_iff (hslot : members.lookup key = slot) {x : Option α}
    (hread : ∀ v a, decode v = some a ↔ R a v) (hnull : ∀ a, ¬R a .null) :
    optional members key decode = some x ↔ Optional R x slot := by
  rw [optional, hslot]
  constructor
  · intro h
    split at h
    · cases h
      exact .omitted
    · cases h
      exact .null
    · obtain ⟨a, ha, rfl⟩ := Option.map_eq_some_iff.mp h
      exact .written ((hread _ a).mp ha)
  · rintro (_ | _ | h)
    · rfl
    · rfl
    · split
      · contradiction
      · next hv =>
          cases hv
          exact absurd h (hnull _)
      · next hv =>
          cases hv
          rw [(hread _ _).mpr h, Option.map_some]

/-- A field that is kept as it is cannot hold null, which stands for its absence. -/
theorem optional_raw_iff (hslot : members.lookup key = slot) {x : Option Json} :
    optional members key some = some x ↔ x ≠ some .null ∧ Optional (Is id) x slot := by
  rw [optional, hslot]
  constructor
  · intro h
    split at h
    · cases h
      exact ⟨by simp, .omitted⟩
    · cases h
      exact ⟨by simp, .null⟩
    · next v hv =>
        cases h
        exact ⟨by simpa using hv, .written rfl⟩
  · rintro ⟨hne, _ | _ | rfl⟩
    · rfl
    · rfl
    · split
      · contradiction
      · next hv =>
          cases hv
          exact absurd rfl hne
      · next hv =>
          cases hv
          rfl

theorem optional_string_iff (hslot : members.lookup key = slot) {x : Option String} :
    optional members key string? = some x ↔ Optional (Is .string) x slot :=
  optional_iff hslot (fun _ _ => string?_eq_some) fun _ => by simp [Is]

theorem optional_list_iff (hslot : members.lookup key = slot) {x : Option (List α)}
    (hread : ∀ v a, decode v = some a ↔ R a v) :
    optional members key (list? decode) = some x ↔ Optional (ListOf R) x slot :=
  optional_iff hslot (fun _ _ => list?_eq_some hread) fun _ => not_listOf_null

theorem Optional.exists_ne_null {x : Option Json} (h : Optional (Is id) x slot) :
    ∃ y, y ≠ some .null ∧ Optional (Is id) y slot := by
  cases h with
  | omitted => exact ⟨none, by simp, .omitted⟩
  | null => exact ⟨none, by simp, .null⟩
  | @written a v h =>
      by_cases hnull : v = .null
      · exact ⟨none, by simp, hnull ▸ .null⟩
      · exact ⟨some v, by simpa using hnull, .written rfl⟩

end Json

end SchemaCompiler
