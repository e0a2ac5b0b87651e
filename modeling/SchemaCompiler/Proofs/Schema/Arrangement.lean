import SchemaCompiler.Proofs.Outcome
import Mathlib.Data.Fintype.Perm
import Mathlib.Data.List.Nodup

/-! # Other orders of declarations

An arrangement says in which order the items of a list come, and how each of them is arranged inside.
One arrangement applies to the declarations of a document and to what they compile to. -/

namespace SchemaCompiler

/-! ## Permuted lists -/

/-- A permutation of positions keeps to the positions of so many items. -/
def PermutesBelow (σ : Equiv.Perm ℕ) (n : ℕ) : Prop :=
  ∀ i, σ i < n ↔ i < n

/-- The items in another order: to each position comes the item at its image. -/
def permute {α : Type} (σ : Equiv.Perm ℕ) (as : List α) : List α :=
  as.mapIdx fun i a => as.getD (σ i) a

theorem PermutesBelow.symm {σ : Equiv.Perm ℕ} {n : ℕ} (h : PermutesBelow σ n) :
    PermutesBelow σ.symm n := by
  intro i
  rw [← h (σ.symm i), Equiv.apply_symm_apply]

theorem permutesBelow_swap {i j n : ℕ} (hi : i < n) (hj : j < n) :
    PermutesBelow (Equiv.swap i j) n := by
  intro k
  rw [Equiv.swap_apply_def]
  split
  · omega
  · split <;> omega

section Permute

variable {α β : Type} {σ : Equiv.Perm ℕ} {as : List α}

@[simp] theorem length_permute : (permute σ as).length = as.length := by
  simp [permute]

theorem getElem?_permute (h : PermutesBelow σ as.length) (i : ℕ) :
    (permute σ as)[i]? = as[σ i]? := by
  rw [permute, List.getElem?_mapIdx]
  by_cases hi : i < as.length
  · have hσ : σ i < as.length := (h i).mpr hi
    simp [hi, hσ]
  · have hσ : ¬σ i < as.length := fun hlt => hi ((h i).mp hlt)
    simp [hi, hσ]

/-- The positions themselves are only reordered. -/
theorem map_range_perm {n : ℕ} (h : PermutesBelow σ n) :
    ((List.range n).map σ).Perm (List.range n) := by
  rw [List.perm_ext_iff_of_nodup (List.nodup_range.map σ.injective) List.nodup_range]
  intro i
  rw [List.mem_map, List.mem_range]
  constructor
  · rintro ⟨j, hj, rfl⟩
    exact (h j).mpr (List.mem_range.mp hj)
  · intro hi
    exact ⟨σ.symm i, List.mem_range.mpr ((h.symm i).mpr hi), σ.apply_symm_apply i⟩

theorem permute_perm (h : PermutesBelow σ as.length) : (permute σ as).Perm as := by
  have hitems : ∀ bs : List α, bs.map some = (List.range bs.length).map (bs[·]?) := by
    intro bs
    apply List.ext_getElem?
    intro i
    by_cases hi : i < bs.length <;> simp [hi]
  have hpermuted : (permute σ as).map some = ((List.range as.length).map σ).map (as[·]?) := by
    rw [hitems, length_permute, List.map_map]
    exact List.map_congr_left fun i _ => getElem?_permute h i
  apply (List.map_perm_map_iff (Option.some_injective α)).mp
  rw [hpermuted, hitems as]
  exact (map_range_perm h).map _

theorem map_permute (h : PermutesBelow σ as.length) (f : α → β) :
    (permute σ as).map f = permute σ (as.map f) := by
  apply List.ext_getElem?
  intro i
  rw [List.getElem?_map, getElem?_permute h, getElem?_permute (by simpa using h), List.getElem?_map]

theorem mem_permute (h : PermutesBelow σ as.length) {a : α} : a ∈ permute σ as ↔ a ∈ as :=
  (permute_perm h).mem_iff

theorem permute_symm_permute (h : PermutesBelow σ as.length) :
    permute σ.symm (permute σ as) = as := by
  apply List.ext_getElem?
  intro i
  rw [getElem?_permute (by simpa using h.symm), getElem?_permute h, Equiv.apply_symm_apply]

theorem forall₂_iff_getElem? {R : α → β → Prop} {bs : List β} : List.Forall₂ R as bs ↔
    as.length = bs.length ∧ ∀ (i : ℕ) a b, as[i]? = some a → bs[i]? = some b → R a b := by
  rw [List.forall₂_iff_get]
  refine and_congr_right fun hlength => ?_
  constructor
  · intro h i a b ha hb
    obtain ⟨hi, rfl⟩ := List.getElem?_eq_some_iff.mp ha
    obtain ⟨hi', rfl⟩ := List.getElem?_eq_some_iff.mp hb
    exact h i hi hi'
  · intro h i hi hi'
    exact h i _ _ (List.getElem?_eq_getElem hi) (List.getElem?_eq_getElem hi')

theorem forall₂_permute {R : α → β → Prop} {bs : List β} (hσ : PermutesBelow σ as.length)
    (h : List.Forall₂ R as bs) : List.Forall₂ R (permute σ as) (permute σ bs) := by
  obtain ⟨hlength, hitems⟩ := forall₂_iff_getElem?.mp h
  refine forall₂_iff_getElem?.mpr ⟨by simp [hlength], ?_⟩
  intro i a b ha hb
  rw [getElem?_permute hσ] at ha
  rw [getElem?_permute (hlength ▸ hσ)] at hb
  exact hitems _ a b ha hb

end Permute

/-! ## Lists arranged inside -/

/-- An order for items, and an arrangement for the inside of the item at each position. -/
structure Arrangement (β : Type) where
  positions : Equiv.Perm ℕ
  inside : ℕ → β

namespace Arrangement

section Apply

variable {α β γ : Type}

/-- The items arranged inside, and then in the new order. -/
def apply (change : β → α → α) (o : Arrangement β) (as : List α) : List α :=
  permute o.positions (as.mapIdx fun i a => change (o.inside i) a)

/-- The order is one of the items, and each inner arrangement suits its item. -/
structure Suits (suits : β → α → Prop) (o : Arrangement β) (as : List α) : Prop where
  positions : PermutesBelow o.positions as.length
  inside : ∀ i a, as[i]? = some a → suits (o.inside i) a

/-- The arrangement that leads back. -/
def symm (back : β → β) (o : Arrangement β) : Arrangement β :=
  ⟨o.positions.symm, fun i => back (o.inside (o.positions i))⟩

variable {change : β → α → α} {suits : β → α → Prop} {back : β → β} {o : Arrangement β}
  {as : List α}

theorem Suits.getElem?_apply (h : o.Suits suits as) (i : ℕ) :
    (o.apply change as)[i]? = as[o.positions i]?.map (change (o.inside (o.positions i))) := by
  rw [apply, getElem?_permute (by simpa using h.positions), List.getElem?_mapIdx]

@[simp] theorem length_apply : (o.apply change as).length = as.length := by
  simp [apply]

theorem Suits.mem_apply (h : o.Suits suits as) {a : α} :
    a ∈ o.apply change as ↔ ∃ i b, as[i]? = some b ∧ change (o.inside i) b = a := by
  rw [apply, mem_permute (by simpa using h.positions), List.mem_iff_getElem?]
  simp

/-- What no arrangement changes comes in the new order. -/
theorem Suits.map_apply (h : o.Suits suits as) {f : α → γ} (hf : ∀ b a, f (change b a) = f a) :
    (o.apply change as).map f = permute o.positions (as.map f) := by
  have hinside : (as.mapIdx fun i a => change (o.inside i) a).map f = as.map f := by
    apply List.ext_getElem?
    intro i
    simp [Function.comp_def, hf]
  rw [apply, map_permute (by simpa using h.positions), hinside]

theorem Suits.apply_symm_apply (h : o.Suits suits as)
    (hback : ∀ b a, suits b a → change (back b) (change b a) = a) :
    (o.symm back).apply change (o.apply change as) = as := by
  apply List.ext_getElem?
  intro i
  have hbound : PermutesBelow (o.symm back).positions
      ((o.apply change as).mapIdx fun i a => change ((o.symm back).inside i) a).length := by
    simpa [symm] using h.positions.symm
  rw [apply, getElem?_permute hbound, List.getElem?_mapIdx, h.getElem?_apply]
  simp only [symm, Equiv.apply_symm_apply, Option.map_map]
  cases ha : as[i]? with
  | none => rfl
  | some a => exact congrArg some (hback _ a (h.inside i a ha))

theorem Suits.symm_apply (h : o.Suits suits as)
    (hback : ∀ b a, suits b a → suits (back b) (change b a)) :
    (o.symm back).Suits suits (o.apply change as) where
  positions := by simpa [symm] using h.positions.symm
  inside := by
    intro i a ha
    rw [h.getElem?_apply, Option.map_eq_some_iff] at ha
    obtain ⟨b, hb, rfl⟩ := ha
    exact hback _ b (h.inside _ b hb)

/-- Items that are related stay so when both are arranged in the same way. -/
theorem Suits.forall₂_apply (h : o.Suits suits as) {bs : List γ} {change' : β → γ → γ}
    {R S : α → γ → Prop} (hR : List.Forall₂ R as bs)
    (hS : ∀ i a b, as[i]? = some a → R a b → S (change (o.inside i) a) (change' (o.inside i) b)) :
    List.Forall₂ S (o.apply change as) (o.apply change' bs) := by
  apply forall₂_permute (by simpa using h.positions)
  obtain ⟨hlength, hitems⟩ := forall₂_iff_getElem?.mp hR
  refine forall₂_iff_getElem?.mpr ⟨by simp [hlength], ?_⟩
  intro i a b ha hb
  rw [List.getElem?_mapIdx, Option.map_eq_some_iff] at ha hb
  obtain ⟨a', ha', rfl⟩ := ha
  obtain ⟨b', hb', rfl⟩ := hb
  exact hS i a' b' ha' (hitems i a' b' ha' hb')

end Apply

end Arrangement

/-! ## Documents and schemas -/

/-- An order for the columns and one for the indexes of a table. -/
structure TableArrangement where
  columns : Equiv.Perm ℕ
  indexes : Equiv.Perm ℕ

/-- An arrangement of the tables of a database. -/
abbrev DatabaseArrangement : Type := Arrangement TableArrangement

/-- An arrangement of the databases of a document. -/
abbrev DocumentArrangement : Type := Arrangement DatabaseArrangement

def TableDeclaration.arrange (o : TableArrangement) (t : TableDeclaration) : TableDeclaration :=
  { t with columns := permute o.columns t.columns, indexes := permute o.indexes t.indexes }

def DatabaseDeclaration.arrange (o : DatabaseArrangement) (d : DatabaseDeclaration) :
    DatabaseDeclaration :=
  { d with tables := o.apply TableDeclaration.arrange d.tables }

def Document.arrange (d : Document) (o : DocumentArrangement) : Document :=
  ⟨o.apply DatabaseDeclaration.arrange d.databases⟩

namespace Schema

def Table.arrange (o : TableArrangement) (t : Table) : Table :=
  { t with columns := permute o.columns t.columns, indexes := permute o.indexes t.indexes }

def Database.arrange (o : DatabaseArrangement) (d : Database) : Database :=
  { d with tables := o.apply Table.arrange d.tables }

def arrange (s : Schema) (o : DocumentArrangement) : Schema :=
  ⟨o.apply Database.arrange s.databases⟩

end Schema

/-- The orders are those of the columns and indexes that the table has. -/
structure TableArrangement.Suits (o : TableArrangement) (t : TableDeclaration) : Prop where
  columns : PermutesBelow o.columns t.columns.length
  indexes : PermutesBelow o.indexes t.indexes.length

def DatabaseDeclaration.Suits (o : DatabaseArrangement) (d : DatabaseDeclaration) : Prop :=
  Arrangement.Suits TableArrangement.Suits o d.tables

/-- An arrangement is one of the databases, tables, columns and indexes that a document has. -/
def Document.Admits (d : Document) (o : DocumentArrangement) : Prop :=
  o.Suits DatabaseDeclaration.Suits d.databases

end SchemaCompiler
