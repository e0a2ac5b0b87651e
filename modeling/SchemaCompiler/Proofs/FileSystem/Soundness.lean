import SchemaCompiler.Proofs.FileSystem.Directories
import Mathlib.Logic.Relation

/-! # Disks that operations make

Every operation that succeeds leaves a disk as a file system keeps it. What lies below a directory of such
a disk is what its inventory lists, and two inventories are the same only if the directories hold the same. -/

namespace SchemaCompiler

namespace Disk

variable {d d' : Disk} {p q start : Place} {path source target : String} {contents : ByteArray}
  {follow : Bool} {links : Nat} {segments : List String} {e : Entry}

/-! ## Names on the way to a place -/

/-- Paths can spell the names on the way to a place. -/
def Spelled (p : Place) : Prop :=
  ∀ name ∈ p, Path.Plain name ∧ name.utf8ByteSize ≤ maxName

theorem Spelled.append (hp : Spelled p) (hq : Spelled q) : Spelled (p ++ q) :=
  fun name hname => (List.mem_append.mp hname).elim (hp name) (hq name)

theorem Spelled.dropLast (h : Spelled p) : Spelled p.dropLast :=
  fun name hname => h name (List.mem_of_mem_dropLast hname)

/-- What slashes part is a name or dots, if it is not empty. -/
theorem mem_steps {name : String} (h : name ∈ steps path) : name ≠ "" ∧ '/' ∉ name.toList := by
  obtain ⟨hpiece, hne⟩ := List.mem_filter.mp h
  exact ⟨by simpa using hne, Path.slash_notMem_of_mem_pieces path hpiece⟩

/-- A walk over steps leads to a place that they spell. -/
theorem Walks.spelled (h : Walks d follow links start segments p) (hstart : Spelled start)
    (hsegments : ∀ name ∈ segments, name ≠ "" ∧ '/' ∉ name.toList) : Spelled p := by
  have hlast : ∀ {origin : Place} {name : String}, Spelled origin → Segment name →
      (name ≠ "" ∧ '/' ∉ name.toList) → Spelled (origin ++ [name]) := by
    intro origin name horigin hname hpiece
    apply horigin.append
    intro other hother
    rw [List.mem_singleton.mp hother]
    exact ⟨⟨hpiece.1, hname.ne_dot, hname.ne_dots, hpiece.2⟩, hname.length⟩
  induction h with
  | here => exact hstart
  | dot _ ih => exact ih hstart fun name hname => hsegments name (.tail _ hname)
  | dots _ ih => exact ih hstart.dropLast fun name hname => hsegments name (.tail _ hname)
  | last hname _ => exact hlast hstart hname (hsegments _ (.head _))
  | inside hname _ _ ih =>
      exact ih (hlast hstart hname (hsegments _ (.head _)))
        fun name hmem => hsegments name (.tail _ hmem)
  | link hname _ _ _ ih =>
      apply ih
      · split
        · exact fun name hmem => absurd hmem (by simp)
        · exact hstart
      · intro name hmem
        rcases List.mem_append.mp hmem with hmem | hmem
        · exact mem_steps hmem
        · exact hsegments name (.tail _ hmem)

theorem Sound.spelled (h : d.Sound) (hp : d.entry? p ≠ none) : Spelled p := by
  by_cases hroot : p = []
  · exact fun name hname => absurd hname (by simp [hroot])
  · rw [entry?_of_ne_nil hroot, ← Option.isSome_iff_ne_none, List.lookup_isSome_iff] at hp
    obtain ⟨entry, hentry, hkey⟩ := hp
    exact eq_of_beq hkey ▸ h.named entry hentry

/-- A path leads into a directory, to a place that it spells. -/
theorem Sound.place (h : d.Sound) (hresolve : d.resolve follow path = .ok p) :
    Spelled p ∧ d.entry? p.dropLast = some .directory := by
  have hwalks := (resolve_eq_ok.mp hresolve).2
  have horigin : d.entry? (d.origin path) = some .directory := origin_directory h.current
  refine ⟨hwalks.spelled (h.spelled ?_) fun name => mem_steps, hwalks.directory_dropLast h.rooted horigin⟩
  simp [horigin]

/-! ## Changes of entries -/

theorem Sound.put (h : d.Sound) (hp : d.entry? p ≠ some .directory) (hspelled : Spelled p)
    (hinside : d.entry? p.dropLast = some .directory) (e : Entry) : (d.put p e).Sound where
  distinct := by
    refine List.nodup_cons.mpr ⟨?_, h.distinct.sublist (List.filter_sublist.map _)⟩
    rintro hmem
    obtain ⟨entry, hentry, hkey⟩ := List.mem_map.mp hmem
    simp [hkey] at hentry
  rooted := h.rooted.put hp hinside e
  named := by
    intro entry hentry
    rcases List.mem_cons.mp hentry with rfl | hentry
    · exact hspelled
    · exact h.named entry (List.mem_of_mem_filter hentry)
  current := by
    rw [entry?_put (ne_nil_of_entry?_ne hp), Function.update_of_ne]
    · exact h.current
    · intro hcurrent
      exact hp (hcurrent ▸ h.current)

theorem Sound.erase (h : d.Sound) (hstays : entry? (d.erase p) d.current = some .directory) :
    (d.erase p).Sound where
  distinct := h.distinct.sublist (List.filter_sublist.map _)
  rooted := by
    intro q name hentry
    by_cases hroot : q = []
    · rw [hroot, entry?_root]
    · rw [entry?_erase (by simp)] at hentry
      have hbelow : ¬p <+: q := by
        intro hleads
        simp [hleads.trans (List.prefix_append q [name])] at hentry
      rw [entry?_erase hroot, if_neg hbelow]
      exact h.rooted q name fun hnone => hentry (by simp [hnone])
  named entry hentry := h.named entry (List.mem_of_mem_filter hentry)
  current := hstays

/-- An entry is moved when its place is below the old one. -/
theorem moved_eq_some {place r : Place} {e' : Entry} :
    (if p.isPrefixOf place then some (q ++ place.drop p.length, e') else none) = some (r, e) ↔
      ∃ rest, place = p ++ rest ∧ r = q ++ rest ∧ e' = e := by
  by_cases hbelow : p <+: place
  · obtain ⟨below, rfl⟩ := hbelow
    rw [if_pos (by simp), List.drop_left]
    constructor
    · intro hmoved
      cases hmoved
      exact ⟨below, rfl, rfl, rfl⟩
    · rintro ⟨rest, hplace, rfl, rfl⟩
      rw [List.append_cancel_left hplace]
  · have hnot : p.isPrefixOf place = false := by
      simpa [← List.isPrefixOf_iff_prefix] using hbelow
    simp only [hnot, Bool.false_eq_true, if_false, reduceCtorEq, false_iff]
    rintro ⟨rest, rfl, -⟩
    exact hbelow (List.prefix_append p rest)

theorem mem_move {r : Place} : (r, e) ∈ (d.move p q).entries ↔
    (∃ rest, (p ++ rest, e) ∈ d.entries ∧ r = q ++ rest) ∨
      (r, e) ∈ d.entries ∧ ¬p <+: r ∧ ¬q <+: r := by
  rw [move, List.mem_append, List.mem_filterMap]
  refine or_congr ⟨?_, ?_⟩ ?_
  · rintro ⟨⟨place, e'⟩, hmem, hmoved⟩
    obtain ⟨rest, rfl, rfl, rfl⟩ := moved_eq_some.mp hmoved
    exact ⟨rest, hmem, rfl⟩
  · rintro ⟨rest, hmem, rfl⟩
    exact ⟨_, hmem, moved_eq_some.mpr ⟨rest, rfl, rfl, rfl⟩⟩
  · simp [erase, Bool.eq_false_iff, and_comm]

theorem nodup_move (h : (d.entries.map (·.1)).Nodup) : ((d.move p q).entries.map (·.1)).Nodup := by
  rw [Disk.move, List.map_append, List.nodup_append]
  refine ⟨?_, ?_, ?_⟩
  · refine List.pairwise_map.mpr ((List.pairwise_map.mp h).filterMap _ ?_)
    rintro ⟨place, e⟩ ⟨place', e'⟩ hne ⟨r, _⟩ hmoved ⟨r', _⟩ hmoved' rfl
    obtain ⟨rest, rfl, rfl, -⟩ := moved_eq_some.mp hmoved
    obtain ⟨rest', rfl, heq, -⟩ := moved_eq_some.mp hmoved'
    exact hne (congrArg (p ++ ·) (List.append_cancel_left heq))
  · exact h.sublist ((List.filter_sublist.trans List.filter_sublist).map _)
  · -- nothing is left below the new place
    rintro r hr r' hr' rfl
    obtain ⟨⟨_, e⟩, hmem, rfl⟩ := List.mem_map.mp hr
    obtain ⟨entry, -, hmoved⟩ := List.mem_filterMap.mp hmem
    obtain ⟨rest, -, rfl, -⟩ := moved_eq_some.mp hmoved
    obtain ⟨entry', hkept, hkey⟩ := List.mem_map.mp hr'
    have hnot := (List.mem_filter.mp hkept).2
    rw [hkey] at hnot
    simp [List.isPrefixOf_iff_prefix.mpr (List.prefix_append q rest)] at hnot

/-- What is moved lies in a directory that is not moved itself. -/
theorem Rooted.move (h : d.Rooted) (hinside : d.entry? q.dropLast = some .directory) (hpq : ¬p <+: q) :
    (d.move p q).Rooted := by
  have hp : p ≠ [] := by
    rintro rfl
    exact hpq List.nil_prefix
  intro r name hentry
  by_cases hroot : r = []
  · rw [hroot, entry?_root]
  · rw [Disk.entry?_move hp (by simp)] at hentry
    rw [Disk.entry?_move hp hroot]
    by_cases hbelow : q <+: r
    · obtain ⟨rest, rfl⟩ := hbelow
      rw [List.append_assoc, if_pos (List.prefix_append q _), List.drop_left,
        ← List.append_assoc] at hentry
      rw [if_pos (List.prefix_append q rest), List.drop_left]
      exact h _ name hentry
    · rw [if_neg hbelow]
      by_cases hplace : q = r ++ [name]
      · have hkept : ¬p <+: r := fun hleads => hpq (hplace ▸ hleads.trans (List.prefix_append r _))
        rw [if_neg hkept]
        simpa [hplace] using hinside
      · have hother : ¬q <+: r ++ [name] := by
          rw [List.prefix_concat_iff]
          exact not_or.mpr ⟨hplace, hbelow⟩
        rw [if_neg hother] at hentry
        have hkept : ¬p <+: r := by
          intro hleads
          simp [hleads.trans (List.prefix_append r [name])] at hentry
        rw [if_neg hkept]
        exact h r name fun hnone => hentry (by simp [hnone])

/-- A place is moved to a place that is not below it. -/
theorem Sound.move (h : d.Sound) (hspelled : Spelled q)
    (hinside : d.entry? q.dropLast = some .directory) (hpq : ¬p <+: q)
    (hstays : entry? (d.move p q) d.current = some .directory) : (d.move p q).Sound where
  distinct := nodup_move h.distinct
  rooted := h.rooted.move hinside hpq
  named := by
    rintro ⟨r, e⟩ hmem
    rcases mem_move.mp hmem with ⟨rest, hmoved, rfl⟩ | ⟨hkept, -⟩
    · apply hspelled.append
      intro name hname
      exact h.named (p ++ rest, e) hmoved name (List.mem_append_right p hname)
    · exact h.named (r, e) hkept
  current := hstays

/-! ## Operations -/

theorem Sound.write (h : d.Sound) (hwrite : d.write path contents = .ok d') : d'.Sound := by
  rw [Disk.write, bind_eq_ok] at hwrite
  obtain ⟨p, hresolve, hput⟩ := hwrite
  obtain ⟨hspelled, hinside⟩ := h.place hresolve
  cases hp : d.entry? p with
  | none =>
      simp only [hp, lastGuard_eq_ok, pure_eq_ok] at hput
      exact hput.2 ▸ h.put (by simp [hp]) hspelled hinside (.file contents)
  | some e =>
      cases e with
      | file old =>
          simp only [hp, lastGuard_eq_ok, pure_eq_ok] at hput
          exact hput.2 ▸ h.put (by simp [hp]) hspelled hinside (.file contents)
      | directory | link => simp [hp] at hput

/-- What is made where nothing was leaves the disk sound. -/
theorem Sound.put_new (h : d.Sound) (hresolve : d.resolve follow path = .ok p)
    (hp : d.entry? p = none) (e : Entry) : (d.put p e).Sound := by
  obtain ⟨hspelled, hinside⟩ := h.place hresolve
  exact h.put (by simp [hp]) hspelled hinside e

theorem Sound.makeDirectory (h : d.Sound) (hmake : d.makeDirectory path = .ok d') : d'.Sound := by
  rw [Disk.makeDirectory, bind_eq_ok] at hmake
  obtain ⟨p, hresolve, hput⟩ := hmake
  cases hp : d.entry? p with
  | none =>
      simp only [hp, pure_eq_ok] at hput
      exact hput ▸ h.put_new hresolve hp .directory
  | some e => simp [hp] at hput

theorem Sound.makeLink (h : d.Sound) (hmake : d.makeLink path target = .ok d') : d'.Sound := by
  rw [Disk.makeLink, bind_eq_ok] at hmake
  obtain ⟨p, hresolve, hput⟩ := hmake
  cases hp : d.entry? p with
  | none =>
      simp only [hp, pure_eq_ok] at hput
      exact hput ▸ h.put_new hresolve hp (.link target)
  | some e => simp [hp] at hput

theorem Sound.ensureDirectory (h : d.Sound) (path : String) : (d.ensureDirectory path).2.Sound := by
  rw [Disk.ensureDirectory]
  split
  · next d' hmake => exact h.makeDirectory hmake
  · exact h

/-- Directories that are made on the way stay sound, whether or not the last one can be made. -/
theorem Sound.makeAll (h : d.Sound) (paths : List String) : (d.makeAll paths).2.Sound := by
  induction paths with
  | nil => exact h
  | cons path outer ih =>
      rw [Disk.makeAll]
      split
      · exact h
      · split
        · split
          · next houter => exact houter ▸ ih
          · next houter => exact (houter ▸ ih : _).ensureDirectory path
        · exact h.ensureDirectory path

theorem Sound.makeDirectories (h : d.Sound) (path : String) : (d.makeDirectories path).2.Sound :=
  h.makeAll (Path.ancestors path)

theorem Sound.unlink (h : d.Sound) (hunlink : d.unlink path = .ok d') : d'.Sound := by
  rw [Disk.unlink, bind_eq_ok] at hunlink
  obtain ⟨p, -, herase⟩ := hunlink
  have hkept : d.entry? p ≠ some .directory → (d.erase p).Sound := by
    intro hp
    apply h.erase
    rw [h.rooted.entry?_erase hp, Function.update_of_ne]
    · exact h.current
    · intro hcurrent
      exact hp (hcurrent ▸ h.current)
  cases hp : d.entry? p with
  | none => simp [hp] at herase
  | some e =>
      cases e with
      | directory => simp [hp] at herase
      | file | link =>
          simp only [hp, lastGuard_eq_ok, pure_eq_ok] at herase
          exact herase.2 ▸ hkept (by simp [hp])

theorem Sound.removeAll (h : d.Sound) (hremove : d.removeAll path = .ok d')
    (hstays : d'.entry? d.current = some .directory) : d'.Sound := by
  rw [Disk.removeAll, bind_eq_ok] at hremove
  obtain ⟨p, -, herase⟩ := hremove
  cases herase
  exact h.erase hstays

/-- An entry is moved, unless it is there already. -/
theorem rename_eq_ok (h : d.rename source target = .ok d') :
    d' = d ∨ ∃ p q, d.resolve false target = .ok q ∧ ¬p <+: q ∧ d' = d.move p q := by
  rw [rename, bind_eq_ok] at h
  obtain ⟨p, hsource, h⟩ := h
  rw [bind_eq_ok] at h
  obtain ⟨q, htarget, h⟩ := h
  obtain ⟨-, h⟩ := guard_eq_ok.mp h
  cases hp : d.entry? p with
  | none => simp [hp] at h
  | some e =>
      simp only [hp] at h
      obtain ⟨-, h⟩ := lastGuard_eq_ok.mp h
      split at h
      · exact .inl (pure_eq_ok.mp h).symm
      · obtain ⟨hpq, h⟩ := lastGuard_eq_ok.mp h
        obtain ⟨-, h⟩ := lastGuard_eq_ok.mp h
        refine .inr ⟨p, q, htarget, by simpa using hpq, ?_⟩
        cases hq : d.entry? q with
        | none =>
            simp only [hq, pure_eq_ok] at h
            exact h.symm
        | some old =>
            simp only [hq] at h
            obtain ⟨-, h⟩ := lastGuard_eq_ok.mp h
            obtain ⟨-, h⟩ := lastGuard_eq_ok.mp h
            split at h
            · exact (pure_eq_ok.mp h).symm
            · simp at h

theorem Sound.rename (h : d.Sound) (hrename : d.rename source target = .ok d')
    (hstays : d'.entry? d.current = some .directory) : d'.Sound := by
  rcases rename_eq_ok hrename with rfl | ⟨p, q, htarget, hpq, rfl⟩
  · exact h
  · obtain ⟨hspelled, hinside⟩ := h.place htarget
    exact h.move hspelled hinside hpq hstays

/-! ## Runs -/

/-- One operation that succeeds, or that makes directories as far as it can. The current directory is
neither moved nor removed. -/
inductive Step : Disk → Disk → Prop where
  | write {d d' : Disk} {path : String} {contents : ByteArray} (h : d.write path contents = .ok d') :
      Step d d'
  | rename {d d' : Disk} {source target : String} (h : d.rename source target = .ok d')
      (hstays : d'.entry? d.current = some .directory) : Step d d'
  | unlink {d d' : Disk} {path : String} (h : d.unlink path = .ok d') : Step d d'
  | makeDirectories (d : Disk) (path : String) : Step d (d.makeDirectories path).2
  | makeLink {d d' : Disk} {path target : String} (h : d.makeLink path target = .ok d') : Step d d'
  | removeAll {d d' : Disk} {path : String} (h : d.removeAll path = .ok d')
      (hstays : d'.entry? d.current = some .directory) : Step d d'

theorem Step.sound (hstep : Step d d') (h : d.Sound) : d'.Sound := by
  cases hstep with
  | write hwrite => exact h.write hwrite
  | rename hrename hstays => exact h.rename hrename hstays
  | unlink hunlink => exact h.unlink hunlink
  | makeDirectories path => exact h.makeDirectories path
  | makeLink hmake => exact h.makeLink hmake
  | removeAll hremove hstays => exact h.removeAll hremove hstays

theorem empty_sound : empty.Sound where
  distinct := by decide
  rooted := by
    apply rooted_of_entries
    simp [empty, entry?]
  named := by decide
  current := rfl

/-- Whatever operations make of an empty disk is sound. -/
theorem sound_of_steps (h : Relation.ReflTransGen Step empty d) : d.Sound := by
  induction h with
  | refl => exact empty_sound
  | tail _ hstep ih => exact hstep.sound ih

/-! ## Inventories -/

theorem below_eq_some {place : Place} {e' : Entry} :
    (if p.isPrefixOf place ∧ p ≠ place then some (place.drop p.length, e') else none) = some (q, e) ↔
      q ≠ [] ∧ place = p ++ q ∧ e' = e := by
  rw [Option.ite_none_right_eq_some, List.isPrefixOf_iff_prefix, Option.some.injEq, Prod.mk.injEq]
  constructor
  · rintro ⟨⟨⟨rest, rfl⟩, hne⟩, hrest, rfl⟩
    rw [List.drop_left] at hrest
    subst hrest
    exact ⟨by simpa using hne, rfl, rfl⟩
  · rintro ⟨hne, rfl, rfl⟩
    exact ⟨⟨List.prefix_append p q, by simpa using hne⟩, List.drop_left, rfl⟩

/-- An inventory holds all that lies below a directory. -/
theorem mem_inventory (hsound : d.Sound) (h : d.find path = .ok (p, .directory)) :
    (q, e) ∈ d.inventory path ↔ q ≠ [] ∧ d.entry? (p ++ q) = some e := by
  simp only [inventory, h, List.mem_mergeSort, List.mem_filterMap]
  constructor
  · rintro ⟨⟨place, e'⟩, hmem, hbelow⟩
    obtain ⟨hne, rfl, rfl⟩ := below_eq_some.mp hbelow
    rw [entry?_of_ne_nil (by simp [hne])]
    exact ⟨hne, (lookup_eq_some_iff_of_nodup hsound.distinct).mpr hmem⟩
  · rintro ⟨hne, hentry⟩
    rw [entry?_of_ne_nil (by simp [hne])] at hentry
    exact ⟨_, mem_of_lookup hentry, below_eq_some.mpr ⟨hne, rfl, rfl⟩⟩

theorem inventory_ascending (hsound : d.Sound) (path : String) : (d.inventory path).Pairwise
    fun a b => a.1.map Path.nameBytes < b.1.map Path.nameBytes := by
  rw [inventory]
  split
  · next p _ =>
      apply Path.mergeSort_ascending fun a : Place × Entry => a.1.map Path.nameBytes
      refine List.pairwise_map.mpr ((List.pairwise_map.mp hsound.distinct).filterMap _ ?_)
      rintro ⟨place, e⟩ ⟨place', e'⟩ hne ⟨q, _⟩ hbelow ⟨q', _⟩ hbelow' hsame
      obtain ⟨-, rfl, -⟩ := below_eq_some.mp hbelow
      obtain ⟨-, rfl, -⟩ := below_eq_some.mp hbelow'
      exact hne (congrArg (p ++ ·) (Path.nameBytes_injective.list_map hsame))
  · exact .nil

/-- A directory is listed in front of what lies in it. -/
theorem inventory_outside_in (hsound : d.Sound) (path : String) :
    (d.inventory path).Pairwise fun a b => ¬b.1 <+: a.1 := by
  refine (inventory_ascending hsound path).imp ?_
  rintro ⟨q, _⟩ ⟨q', _⟩ hlt ⟨rest, rfl⟩
  rw [List.map_append] at hlt
  exact List.not_lt.mpr List.le_append_left hlt

/-- Inventories tell directories apart that do not hold the same. -/
theorem inventory_eq_iff {p' : Place} {path' : String} (hsound : d.Sound) (hsound' : d'.Sound)
    (h : d.find path = .ok (p, .directory)) (h' : d'.find path' = .ok (p', .directory)) :
    d.inventory path = d'.inventory path' ↔ ∀ q, d.entry? (p ++ q) = d'.entry? (p' ++ q) := by
  constructor
  · intro heq q
    by_cases hq : q = []
    · rw [hq, List.append_nil, List.append_nil, (entry?_of_find h).2, (entry?_of_find h').2]
    · apply Option.ext
      intro e
      have hmem := mem_inventory (q := q) (e := e) hsound h
      rw [heq, mem_inventory hsound' h'] at hmem
      simpa [hq] using hmem.symm
  · intro hsame
    have hnodup : ∀ {d : Disk} {path : String}, d.Sound → (d.inventory path).Nodup := by
      intro d path hsound
      refine (inventory_ascending hsound path).imp ?_
      rintro a _ hlt rfl
      exact List.lt_irrefl _ hlt
    refine List.Perm.eq_of_pairwise ?_ (inventory_ascending hsound path)
      (inventory_ascending hsound' path')
      ((List.perm_ext_iff_of_nodup (hnodup hsound) (hnodup hsound')).mpr ?_)
    · intro a b _ _ hab hba
      exact absurd hba (List.lt_asymm hab)
    · rintro ⟨q, e⟩
      rw [mem_inventory hsound h, mem_inventory hsound' h', hsame]

end Disk

end SchemaCompiler
