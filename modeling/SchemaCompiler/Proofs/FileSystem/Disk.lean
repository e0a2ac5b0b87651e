import SchemaCompiler.FileSystem.Disk
import Mathlib.Logic.Function.Basic
import Mathlib.Data.List.Infix

/-! # What operations do to the entries of a disk

A file is put, erased and moved as if places were independent of each other, because nothing lies below a
file. -/

namespace SchemaCompiler

namespace Disk

variable {d d' d'' : Disk} {p q base : Place} {name : String} {e : Entry}

/-! ## Lookups -/

theorem lookup_filter_key (keep : Place → Bool) (entries : List (Place × Entry)) :
    (entries.filter fun e => keep e.1).lookup q = if keep q then entries.lookup q else none := by
  induction entries with
  | nil => simp
  | cons entry entries ih =>
      obtain ⟨p, e⟩ := entry
      by_cases hq : q = p
      · subst hq
        cases hkeep : keep q <;> simp [hkeep, ih]
      · have hne : (q == p) = false := by simpa using hq
        cases hkeep : keep p <;> simp [List.lookup_cons, hkeep, hne, ih]

/-- What is moved lies below the new place as it lay below the old one. -/
theorem lookup_moved (source target : Place) (entries : List (Place × Entry)) :
    (entries.filterMap fun (p, e) =>
      if source <+: p then some (target ++ p.drop source.length, e) else none).lookup q =
      if target <+: q then entries.lookup (source ++ q.drop target.length) else none := by
  induction entries with
  | nil => simp
  | cons entry entries ih =>
      obtain ⟨p, e⟩ := entry
      rw [List.filterMap_cons]
      by_cases hp : source <+: p
      · obtain ⟨rest, rfl⟩ := hp
        simp only [List.prefix_append, if_true, List.drop_left, List.lookup_cons, ih]
        by_cases hq : target <+: q
        · obtain ⟨rest', rfl⟩ := hq
          have hsame : (target ++ rest' == target ++ rest) = (source ++ rest' == source ++ rest) := by
            rw [Bool.eq_iff_iff, beq_iff_eq, beq_iff_eq, List.append_cancel_left_eq,
              List.append_cancel_left_eq]
          simp [hsame]
        · have hne : (q == target ++ rest) = false := by
            simp only [beq_eq_false_iff_ne, ne_eq]
            rintro rfl
            exact hq (List.prefix_append target rest)
          simp only [hq, if_false, hne]
      · have hne : ∀ rest, (source ++ rest == p) = false := by
          intro rest
          simp only [beq_eq_false_iff_ne, ne_eq]
          rintro rfl
          exact hp (List.prefix_append source rest)
        simp only [hp, if_false, ih, List.lookup_cons, hne]

@[simp] theorem entry?_root : d.entry? [] = some .directory := rfl

theorem entry?_of_ne_nil (hp : p ≠ []) : d.entry? p = d.entries.lookup p := by
  rw [Disk.entry?, if_neg hp]

theorem entry?_put (hp : p ≠ []) (e : Entry) :
    entry? (d.put p e) = Function.update d.entry? p (some e) := by
  funext q
  by_cases hq : q = p
  · subst hq
    simp [put, entry?, hp]
  · have hne : (q == p) = false := by simpa using hq
    rw [Function.update_of_ne hq]
    by_cases hroot : q = []
    · simp [hroot]
    · rw [entry?_of_ne_nil hroot, entry?_of_ne_nil hroot, put, List.lookup_cons, hne]
      simpa [hq] using lookup_filter_key (q := q) (fun place => decide (place ≠ p)) d.entries

theorem entry?_erase (hq : q ≠ []) :
    entry? (d.erase p) q = if p <+: q then none else d.entry? q := by
  rw [entry?_of_ne_nil hq, entry?_of_ne_nil hq, erase]
  have hfilter := lookup_filter_key (q := q) (fun place => !p.isPrefixOf place) d.entries
  rw [hfilter]
  by_cases hp : p <+: q
  · simp [hp, List.isPrefixOf_iff_prefix.mpr hp]
  · have hnot : p.isPrefixOf q = false := by
      simpa [← List.isPrefixOf_iff_prefix] using hp
    simp [hp, hnot]

/-- Everything below a place is moved with it. -/
theorem entry?_move (hp : p ≠ []) {r : Place} (hr : r ≠ []) :
    entry? (d.move p q) r = if q <+: r then d.entry? (p ++ r.drop q.length)
      else if p <+: r then none else d.entry? r := by
  rw [entry?_of_ne_nil hr, move, List.lookup_append]
  simp only [List.isPrefixOf_iff_prefix]
  rw [lookup_moved, ← entry?_of_ne_nil (d := (d.erase p).erase q) hr, entry?_erase hr,
    entry?_erase hr, entry?_of_ne_nil (p := p ++ r.drop q.length) (by simp [hp])]
  by_cases hbelow : q <+: r <;> simp [hbelow]

/-! ## Trees -/

/-- Every entry lies in a directory. -/
def Rooted (d : Disk) : Prop :=
  ∀ p name, d.entry? (p ++ [name]) ≠ none → d.entry? p = some .directory

theorem rooted_of_entries (h : ∀ e ∈ d.entries, d.entry? e.1.dropLast = some .directory) :
    d.Rooted := by
  intro p name hentry
  rw [entry?_of_ne_nil (by simp), ← Option.isSome_iff_ne_none, List.lookup_isSome_iff] at hentry
  obtain ⟨e, he, hkey⟩ := hentry
  have hparent := h e he
  rwa [← eq_of_beq hkey, List.dropLast_concat] at hparent

/-- Above an entry there are directories. -/
theorem Rooted.directory_above (h : d.Rooted) (hq : d.entry? q ≠ none) (hleads : p <+: q)
    (hne : p ≠ q) : d.entry? p = some .directory := by
  obtain ⟨rest, rfl⟩ := hleads
  induction rest using List.reverseRecOn with
  | nil => simp at hne
  | append_singleton rest name ih =>
      rw [← List.append_assoc] at hq
      have habove := h _ _ hq
      cases rest with
      | nil => simpa using habove
      | cons => exact ih (by simp [habove]) (by simp)

/-- Nothing lies below a place without a directory. -/
theorem Rooted.entry?_below (h : d.Rooted) (hp : d.entry? p ≠ some .directory) (hleads : p <+: q)
    (hne : p ≠ q) : d.entry? q = none := by
  by_contra hq
  exact hp (h.directory_above hq hleads hne)

theorem ne_nil_of_entry?_ne (h : d.entry? p ≠ some .directory) : p ≠ [] := by
  rintro rfl
  exact h rfl

/-- An entry is put into a directory, where no directory is. -/
theorem Rooted.put (h : d.Rooted) (hp : d.entry? p ≠ some .directory)
    (hinside : d.entry? p.dropLast = some .directory) (e : Entry) : (d.put p e).Rooted := by
  intro q name hentry
  rw [entry?_put (ne_nil_of_entry?_ne hp)] at hentry ⊢
  have hq : d.entry? q = some .directory := by
    by_cases hplace : q ++ [name] = p
    · simpa [← hplace] using hinside
    · rw [Function.update_of_ne hplace] at hentry
      exact h q name hentry
  rw [Function.update_of_ne, hq]
  rintro rfl
  exact hp hq

/-- What is no directory is erased alone. -/
theorem Rooted.entry?_erase (h : d.Rooted) (hp : d.entry? p ≠ some .directory) :
    entry? (d.erase p) = Function.update d.entry? p none := by
  funext q
  by_cases hroot : q = []
  · have hne : [] ≠ p := (ne_nil_of_entry?_ne hp).symm
    rw [hroot, Function.update_of_ne hne, entry?_root, entry?_root]
  · rw [Disk.entry?_erase hroot]
    by_cases hq : q = p
    · simp [hq]
    · rw [Function.update_of_ne hq]
      split
      · next hleads => exact (h.entry?_below hp hleads (Ne.symm hq)).symm
      · rfl

/-- What is no directory is moved alone, to where no directory is. -/
theorem Rooted.entry?_move (h : d.Rooted) (hp : d.entry? p ≠ some .directory)
    (hq : d.entry? q ≠ some .directory) (hentry : d.entry? p = some e) :
    entry? (d.move p q) = Function.update (Function.update d.entry? p none) q (some e) := by
  have hproot := ne_nil_of_entry?_ne hp
  have hqroot := ne_nil_of_entry?_ne hq
  funext r
  by_cases hroot : r = []
  · rw [hroot, Function.update_of_ne (Ne.symm hqroot), Function.update_of_ne (Ne.symm hproot),
      entry?_root, entry?_root]
  · rw [Disk.entry?_move hproot hroot]
    by_cases hrq : r = q
    · subst hrq
      rw [Function.update_self, if_pos (List.prefix_refl r), List.drop_length, List.append_nil, hentry]
    · rw [Function.update_of_ne hrq]
      by_cases hbelow : q <+: r
      · -- nothing lay below the file, and nothing lies below its new place
        obtain ⟨rest, rfl⟩ := hbelow
        have hrest : rest ≠ [] := by
          rintro rfl
          exact hrq (List.append_nil q)
        have hsource : d.entry? (p ++ rest) = none :=
          h.entry?_below hp (List.prefix_append p rest) (by simpa using hrest)
        have htarget : d.entry? (q ++ rest) = none :=
          h.entry?_below hq (List.prefix_append q rest) (by simpa using hrest)
        rw [if_pos (List.prefix_append q rest), List.drop_left, hsource, Function.update_apply, htarget,
          ite_self]
      · rw [if_neg hbelow]
        by_cases hrp : r = p
        · simp [hrp]
        · rw [Function.update_of_ne hrp]
          split
          · next hleads => exact (h.entry?_below hp hleads (Ne.symm hrp)).symm
          · rfl

end Disk

end SchemaCompiler
