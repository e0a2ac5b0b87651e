import SchemaCompiler.Proofs.FileSystem.Walk

/-! # Making directories

Directories are made where nothing was. Afterwards the path leads to a directory, and all that was there
still is. -/

namespace SchemaCompiler

namespace Disk

variable {d d' d'' : Disk} {p base start : Place} {path : String} {follow : Bool} {links : Nat}
  {segments : List String} {e : Entry}

/-- A disk as a file system keeps it: no place has two entries, every entry lies in a directory and has a
name that paths can spell, and there is a current directory. -/
structure Sound (d : Disk) : Prop where
  distinct : (d.entries.map (·.1)).Nodup
  rooted : d.Rooted
  named : ∀ e ∈ d.entries, ∀ name ∈ e.1, Path.Plain name ∧ name.utf8ByteSize ≤ maxName
  current : d.entry? d.current = some .directory

/-! ## More directories -/

/-- One disk has all that another one has, and at most some directories more. -/
structure Grows (d d' : Disk) : Prop where
  current : d'.current = d.current
  kept : ∀ p e, d.entry? p = some e → d'.entry? p = some e
  added : ∀ p, d.entry? p = none → d'.entry? p = none ∨ d'.entry? p = some .directory

theorem Grows.refl : Grows d d := ⟨rfl, fun _ _ => id, fun _ => .inl⟩

theorem Grows.trans (h : Grows d d') (h' : Grows d' d'') : Grows d d'' where
  current := h'.current.trans h.current
  kept p e he := h'.kept p e (h.kept p e he)
  added := by
    intro p hp
    rcases h.added p hp with hp' | hp'
    · exact h'.added p hp'
    · exact .inr (h'.kept p _ hp')

theorem Grows.keeps (h : Grows d d') : Keeps d d' where
  current := h.current
  directory p := h.kept p _
  link := by
    intro p target
    refine ⟨fun hlink => ?_, h.kept p _⟩
    cases hp : d.entry? p with
    | none =>
        rcases h.added p hp with hp' | hp'
        · cases hp'.symm.trans hlink
        · cases hp'.symm.trans hlink
    | some e => rw [← h.kept p e hp, hlink]

/-- What a path leads to lies there for every way of following it. -/
theorem Walks.followed (h : Walks d follow links start segments p)
    (hp : ∀ target, d.entry? p ≠ some (.link target)) : Walks d true links start segments p := by
  induction h with
  | here => exact .here
  | dot _ ih => exact .dot (ih hp)
  | dots _ ih => exact .dots (ih hp)
  | last hname hend =>
      cases hend with
      | nothing h => exact .last hname (.nothing h)
      | file h => exact .last hname (.file h)
      | link h => exact absurd h (hp _)
  | inside hname hentry _ ih => exact .inside hname hentry (ih hp)
  | link hname hentry _ _ ih => exact .link hname hentry (.inr rfl) (ih hp)

theorem entry?_of_find (h : d.find path = .ok (p, e)) :
    d.resolve true path = .ok p ∧ d.entry? p = some e := by
  rw [find, bind_eq_ok] at h
  obtain ⟨q, hresolve, hentry⟩ := h
  cases hq : d.entry? q with
  | none => simp [hq] at hentry
  | some e' =>
      have hsame : q = p ∧ e' = e := by
        cases e' with
        | file contents =>
            simp only [hq, lastGuard_eq_ok, pure_eq_ok, Prod.mk.injEq] at hentry
            exact hentry.2
        | directory => simpa [hq] using hentry
        | link target => simpa [hq] using hentry
      obtain ⟨rfl, rfl⟩ := hsame
      exact ⟨hresolve, hq⟩

/-- A directory that is found is one that a path leads to. -/
theorem directoryAt_of_find (h : d.find path = .ok (p, .directory)) : d.DirectoryAt path p := by
  obtain ⟨hresolve, hentry⟩ := entry?_of_find h
  exact ⟨(resolve_eq_ok.mp hresolve).2, hentry⟩

theorem DirectoryAt.find_eq (h : d.DirectoryAt path p) (hvet : vet path = .ok ()) :
    d.find path = .ok (p, .directory) := by
  rw [find, resolve_eq_ok.mpr ⟨hvet, h.walks⟩, bind_eq_ok]
  exact ⟨p, rfl, by rw [h.directory]; rfl⟩

theorem directoryAt_of_isDirectory (h : d.isDirectory path) : ∃ base, d.DirectoryAt path base := by
  rw [isDirectory] at h
  split at h
  · next p hfind => exact ⟨p, directoryAt_of_find hfind⟩
  · cases h

/-! ## Made directories -/

/-- The disk behind a directory that is there or was made. -/
structure Prepared (d d' : Disk) : Prop where
  grows : Grows d d'
  rooted : d'.Rooted

theorem origin_directory (hcurrent : d.entry? d.current = some .directory) :
    d.entry? (d.origin path) = some .directory := by
  rw [origin]
  split
  · rfl
  · exact hcurrent

/-- A new directory is made in a directory. -/
theorem makeDirectory_ok (hrooted : d.Rooted) (hcurrent : d.entry? d.current = some .directory)
    (h : d.makeDirectory path = .ok d') : Prepared d d' ∧ ∃ base, d'.DirectoryAt path base := by
  rw [makeDirectory, bind_eq_ok] at h
  obtain ⟨p, hresolve, hput⟩ := h
  obtain ⟨hvet, hwalks⟩ := resolve_eq_ok.mp hresolve
  cases hp : d.entry? p with
  | some e => simp [hp] at hput
  | none =>
      have hd' : d.put p .directory = d' := by simpa [hp] using hput
      subst hd'
      have hroot : p ≠ [] := ne_nil_of_entry?_ne (d := d) (by simp [hp])
      have hentry := entry?_put (d := d) hroot .directory
      have hgrows : Grows d (d.put p .directory) := by
        refine ⟨rfl, ?_, ?_⟩
        · intro q e hq
          rw [hentry, Function.update_of_ne, hq]
          rintro rfl
          simp [hp] at hq
        · intro q hq
          rw [hentry]
          by_cases hqp : q = p
          · simp [hqp]
          · simp [Function.update_of_ne hqp, hq]
      have hself : entry? (d.put p .directory) p = some .directory := by
        rw [hentry, Function.update_self]
      have hinside := hwalks.directory_dropLast hrooted (origin_directory hcurrent)
      refine ⟨⟨hgrows, hrooted.put (by simp [hp]) hinside .directory⟩, p, ?_, hself⟩
      exact (hwalks.keep hgrows.keeps).followed (by simp [hself])

theorem ensureDirectory_ok (hrooted : d.Rooted) (hcurrent : d.entry? d.current = some .directory)
    (h : d.ensureDirectory path = (.ok (), d')) :
    Prepared d d' ∧ ∃ base, d'.DirectoryAt path base := by
  rw [ensureDirectory] at h
  split at h
  · next d₁ hmake =>
      cases h
      exact makeDirectory_ok hrooted hcurrent hmake
  · next e hmake =>
      simp only [Prod.mk.injEq] at h
      obtain ⟨hresult, rfl⟩ := h
      split at hresult
      · next hthere => exact ⟨⟨.refl, hrooted⟩, directoryAt_of_isDirectory hthere⟩
      · cases hresult

theorem makeAll_ok {paths : List String} (hrooted : d.Rooted)
    (hcurrent : d.entry? d.current = some .directory) (h : d.makeAll paths = (.ok (), d')) :
    Prepared d d' ∧ ∀ path, paths.head? = some path → path ≠ "" →
      ∃ base, d'.DirectoryAt path base := by
  induction paths generalizing d' with
  | nil =>
      cases h
      exact ⟨⟨.refl, hrooted⟩, by simp⟩
  | cons path outer ih =>
      rw [makeAll] at h
      split at h
      · next hempty =>
          cases h
          exact ⟨⟨.refl, hrooted⟩, by simp [hempty]⟩
      · have hhead : ∀ {base}, d'.DirectoryAt path base → ∀ path', (path :: outer).head? = some path' →
            path' ≠ "" → ∃ base, d'.DirectoryAt path' base := by
          intro base hbase path' hpath' _
          cases hpath'
          exact ⟨base, hbase⟩
        split at h
        · -- the directory is made when those around it are there
          split at h
          · cases h
          · next d₁ houter =>
              obtain ⟨hprepared, -⟩ := ih houter
              have hcurrent₁ := hprepared.grows.kept _ _ hcurrent
              rw [← hprepared.grows.current] at hcurrent₁
              obtain ⟨hprepared', base, hbase⟩ := ensureDirectory_ok hprepared.rooted hcurrent₁ h
              exact ⟨⟨hprepared.grows.trans hprepared'.grows, hprepared'.rooted⟩, hhead hbase⟩
        · obtain ⟨hprepared, base, hbase⟩ := ensureDirectory_ok hrooted hcurrent h
          exact ⟨hprepared, hhead hbase⟩

/-- A path whose directories were made leads to a directory. -/
theorem Sound.makeDirectories_ok (hsound : d.Sound) (h : d.makeDirectories path = (.ok (), d')) :
    Prepared d d' ∧ ∃ base, d'.DirectoryAt path base := by
  obtain ⟨hprepared, hdirectory⟩ := makeAll_ok hsound.rooted hsound.current h
  refine ⟨hprepared, ?_⟩
  by_cases hempty : path = ""
  · subst hempty
    exact ⟨d'.current, .here, hprepared.grows.current ▸ hprepared.grows.kept _ _ hsound.current⟩
  · exact hdirectory path rfl hempty

/-- A directory that is there is not made again. -/
theorem makeDirectories_of_isDirectory (h : d.isDirectory path) :
    d.makeDirectories path = (.ok (), d) := by
  obtain ⟨base, hbase⟩ := directoryAt_of_isDirectory h
  have hmake : ∀ d', d.makeDirectory path ≠ .ok d' := by
    intro d' hmake
    rw [makeDirectory, bind_eq_ok] at hmake
    obtain ⟨p, hresolve, hput⟩ := hmake
    have hwalks := (resolve_eq_ok.mp hresolve).2
    cases hp : d.entry? p with
    | some e => simp [hp] at hput
    | none =>
        have hfollowed := hwalks.followed (by simp [hp])
        have hsame : p = base := Except.ok.inj (hfollowed.walk_eq.symm.trans hbase.walks.walk_eq)
        have hdirectory := hbase.directory
        rw [← hsame, hp] at hdirectory
        cases hdirectory
  have hensure : d.ensureDirectory path = (.ok (), d) := by
    rw [ensureDirectory]
    split
    · next d' hd' => exact absurd hd' (hmake d')
    · simp [h]
  have hne : path ≠ "" := by
    rintro rfl
    cases h
  rw [makeDirectories, Path.ancestors, makeAll, if_neg hne, hensure]

/-! ## Listed directories -/

/-- An entry is a child when its place is that of the directory and a name. -/
theorem child_eq_some {q : Place} {e' : Entry} {name : String} :
    (match q.getLast? with
      | some last => if q.dropLast = p then some (last, e') else none
      | none => none) = some (name, e) ↔ q = p ++ [name] ∧ e' = e := by
  cases q using List.reverseRecOn with
  | nil => simp
  | append_singleton q last =>
      rw [List.getLast?_concat, List.dropLast_concat]
      simp [and_assoc]

theorem mem_children {name : String} : (name, e) ∈ d.children p ↔ (p ++ [name], e) ∈ d.entries := by
  rw [children, List.mem_filterMap]
  constructor
  · rintro ⟨⟨q, e'⟩, hmem, hchild⟩
    obtain ⟨rfl, rfl⟩ := child_eq_some.mp hchild
    exact hmem
  · intro hmem
    exact ⟨_, hmem, child_eq_some.mpr ⟨rfl, rfl⟩⟩

theorem children_names_nodup (h : (d.entries.map (·.1)).Nodup) (p : Place) :
    ((d.children p).map (·.1)).Nodup := by
  refine List.pairwise_map.mpr ((List.pairwise_map.mp h).filterMap _ ?_)
  rintro ⟨q, e⟩ ⟨q', e'⟩ hne ⟨name, _⟩ hchild ⟨name', _⟩ hchild' rfl
  exact hne ((child_eq_some.mp hchild).1.trans (child_eq_some.mp hchild').1.symm)

/-- A name in a directory has the entry that is its child. -/
theorem entry?_child_eq_some (h : (d.entries.map (·.1)).Nodup) {name : String} :
    d.entry? (p ++ [name]) = some e ↔ (name, e) ∈ d.children p := by
  rw [mem_children, entry?_of_ne_nil (by simp)]
  exact lookup_eq_some_iff_of_nodup h

/-- The entries of a directory in one order. -/
def listing (d : Disk) (p : Place) : List DirectoryEntry :=
  (d.children p).map fun child => ⟨child.1, child.2.isFile⟩

theorem mem_listing (h : (d.entries.map (·.1)).Nodup) {name : String} :
    ⟨name, true⟩ ∈ d.listing p ↔ ∃ contents, d.entry? (p ++ [name]) = some (.file contents) := by
  simp only [listing, List.mem_map, DirectoryEntry.mk.injEq, entry?_child_eq_some h]
  constructor
  · rintro ⟨⟨_, e⟩, hchild, rfl, hfile⟩
    cases e with
    | file contents => exact ⟨contents, hchild⟩
    | directory | link => cases hfile
  · rintro ⟨contents, hchild⟩
    exact ⟨_, hchild, rfl, rfl⟩

theorem nodup_listing (h : (d.entries.map (·.1)).Nodup) (p : Place) :
    ((d.listing p).map (·.name)).Nodup := by
  rw [listing, List.map_map]
  exact children_names_nodup h p

theorem list_of_find (h : d.find path = .ok (p, .directory)) : d.list path = .ok (d.listing p) := by
  rw [list, h]
  rfl

theorem list_eq_ok {entries : List DirectoryEntry} (h : d.list path = .ok entries) :
    entries = [] ∨ ∃ base, d.DirectoryAt path base ∧ entries = d.listing base := by
  rw [list, bind_eq_ok] at h
  obtain ⟨⟨p, e⟩, hfind, hentries⟩ := h
  cases e with
  | file => exact .inl (pure_eq_ok.mp hentries).symm
  | link => exact .inl (pure_eq_ok.mp hentries).symm
  | directory => exact .inr ⟨p, directoryAt_of_find hfind, (pure_eq_ok.mp hentries).symm⟩

end Disk

end SchemaCompiler
