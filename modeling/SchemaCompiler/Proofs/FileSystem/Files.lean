import SchemaCompiler.Proofs.FileSystem.Walk

/-! # Files of a directory

Operations on files that paths reach succeed, and change nothing but these files. -/

namespace SchemaCompiler

namespace Disk

variable {d d' d'' : Disk} {p base : Place} {name name' source target path : String}
  {names names' : List String} {e : Entry}

/-! ## Runs -/

section Runs

variable {α β : Type}

/-- What a program returns on a disk, and the disk behind it. -/
def run (d : Disk) (program : StateM Disk α) : α × Disk :=
  program d

theorem run_bind {program : StateM Disk α} {a : α} (h : d.run program = (a, d'))
    (next : α → StateM Disk β) : d.run (program >>= next) = d'.run (next a) := by
  have hbind : d.run (program >>= next) = (d.run program).2.run (next (d.run program).1) := rfl
  rw [hbind, h]

@[simp] theorem run_pure (a : α) : d.run (pure a) = (a, d) := rfl

end Runs

/-! ## Disks with other files -/

/-- What paths may lead over, and what stands in the way of files: directories and links. -/
def fixed? (d : Disk) (p : Place) : Option Entry :=
  (d.entry? p).filter (!·.isFile)

theorem loose_iff : d.Loose p ↔ d.fixed? p = none := by
  rw [Loose, fixed?]
  cases d.entry? p with
  | none => simp
  | some e => cases e <;> simp [Entry.isFile]

theorem fixed?_eq_directory : d.fixed? p = some .directory ↔ d.entry? p = some .directory := by
  rw [fixed?, Option.filter_eq_some_iff]
  simp [Entry.isFile]

theorem fixed?_eq_link {target : String} :
    d.fixed? p = some (.link target) ↔ d.entry? p = some (.link target) := by
  rw [fixed?, Option.filter_eq_some_iff]
  simp [Entry.isFile]

/-- Two disks differ in files only, and only under some names of a directory. -/
structure Alters (d d' : Disk) (base : Place) (names : List String) : Prop where
  current : d'.current = d.current
  fixed : ∀ p, d'.fixed? p = d.fixed? p
  elsewhere : ∀ p, (∀ name ∈ names, p ≠ base ++ [name]) → d'.entry? p = d.entry? p

namespace Alters

theorem refl : d.Alters d base names := ⟨rfl, fun _ => rfl, fun _ _ => rfl⟩

theorem mono (h : d.Alters d' base names) (hsub : names ⊆ names') : d.Alters d' base names' where
  current := h.current
  fixed := h.fixed
  elsewhere p hp := h.elsewhere p fun name hname => hp name (hsub hname)

theorem trans (h : d.Alters d' base names) (h' : d'.Alters d'' base names) :
    d.Alters d'' base names where
  current := h'.current.trans h.current
  fixed p := (h'.fixed p).trans (h.fixed p)
  elsewhere p hp := (h'.elsewhere p hp).trans (h.elsewhere p hp)

theorem entry?_of_notMem (h : d.Alters d' base names) (hname : name ∉ names) :
    d'.entry? (base ++ [name]) = d.entry? (base ++ [name]) := by
  apply h.elsewhere
  intro other hother heq
  exact hname (List.singleton_inj.mp (List.append_cancel_left heq) ▸ hother)

/-- Where files may lie before and behind, nothing but files has changed. -/
theorem of_loose (hcurrent : d'.current = d.current)
    (hbefore : ∀ name ∈ names, d.Loose (base ++ [name]))
    (hafter : ∀ name ∈ names, d'.Loose (base ++ [name]))
    (helsewhere : ∀ p, (∀ name ∈ names, p ≠ base ++ [name]) → d'.entry? p = d.entry? p) :
    d.Alters d' base names where
  current := hcurrent
  fixed := by
    intro p
    by_cases hp : ∃ name ∈ names, p = base ++ [name]
    · obtain ⟨name, hname, rfl⟩ := hp
      rw [loose_iff.mp (hbefore name hname), loose_iff.mp (hafter name hname)]
    · rw [fixed?, fixed?, helsewhere p fun name hname heq => hp ⟨name, hname, heq⟩]
  elsewhere := helsewhere

theorem loose (h : d.Alters d' base names) (hloose : d.Loose p) : d'.Loose p := by
  rw [loose_iff] at hloose ⊢
  rw [h.fixed, hloose]

theorem keeps (h : d.Alters d' base names) : Keeps d d' where
  current := h.current
  directory p hp := by
    rw [← fixed?_eq_directory] at hp ⊢
    rw [h.fixed, hp]
  link p target := by rw [← fixed?_eq_link, h.fixed, fixed?_eq_link]

theorem rooted (h : d.Alters d' base names) (hrooted : d.Rooted)
    (hbase : d.entry? base = some .directory) : d'.Rooted := by
  intro p name hentry
  apply h.keeps.directory
  by_cases hp : p = base
  · rw [hp, hbase]
  · rw [h.elsewhere] at hentry
    · exact hrooted p name hentry
    · intro other _ heq
      exact hp (List.append_inj_left' heq rfl)

theorem reaches (h : d.Alters d' base names) (hreaches : d.Reaches path p) : d'.Reaches path p where
  resolve := by
    intro follow
    obtain ⟨hvet, hwalks⟩ := resolve_eq_ok.mp (hreaches.resolve follow)
    refine resolve_eq_ok.mpr ⟨hvet, ?_⟩
    have hwalks' := hwalks.keep h.keeps
    simpa only [origin, h.current] using hwalks'
  loose := h.loose hreaches.loose
  slash := hreaches.slash
  dots := hreaches.dots

end Alters

/-! ## Operations -/

theorem Rooted.children_eq_nil (h : d.Rooted) (hp : d.entry? p ≠ some .directory) :
    d.children p = [] := by
  rw [children, List.filterMap_eq_nil_iff]
  rintro ⟨q, e⟩ hmem
  cases q using List.reverseRecOn with
  | nil => rfl
  | append_singleton q name =>
      have hentry : d.entry? (q ++ [name]) ≠ none := by
        rw [entry?_of_ne_nil (by simp), ← Option.isSome_iff_ne_none, List.lookup_isSome_iff]
        exact ⟨_, hmem, beq_self_eq_true _⟩
      have hq : q ≠ p := by
        rintro rfl
        exact hp (h q name hentry)
      simp [hq]

namespace Reaches

theorem run_write (h : d.Reaches path (base ++ [name])) (contents : String) :
    ∃ d', d.run (FileStore.write path contents) = (.ok (), d') ∧ d.Alters d' base [name] ∧
      d'.entry? (base ++ [name]) = some (.file contents.toUTF8) := by
  have hentry := entry?_put (d := d) (p := base ++ [name]) (by simp) (.file contents.toUTF8)
  have hself : entry? (d.put (base ++ [name]) (.file contents.toUTF8)) (base ++ [name]) =
      some (.file contents.toUTF8) := by rw [hentry, Function.update_self]
  have hwrite : d.write path contents.toUTF8 = .ok (d.put (base ++ [name]) (.file contents.toUTF8)) := by
    rw [write, h.resolve]
    rcases h.loose with hnone | ⟨old, hold⟩
    · simp [bind, Except.bind, hnone, h.slash, pure, Except.pure]
    · simp [bind, Except.bind, hold, h.slash, pure, Except.pure]
  refine ⟨d.put (base ++ [name]) (.file contents.toUTF8), ?_, .of_loose rfl ?_ ?_ ?_, hself⟩
  · change attempt (·.write path contents.toUTF8) d = _
    rw [attempt, hwrite]
  · simpa using h.loose
  · intro other hother
    rw [List.mem_singleton.mp hother]
    exact .inr ⟨_, hself⟩
  · intro p hp
    rw [hentry, Function.update_of_ne (by simpa using hp)]

theorem run_isFile (h : d.Reaches path p) :
    d.run (FileStore.isFile path) = ((d.entry? p).isSome, d) := by
  have hfile : d.isFile path = (d.entry? p).isSome := by
    rw [isFile, find, h.resolve]
    rcases h.loose with hnone | ⟨contents, hcontents⟩
    · simp [bind, Except.bind, hnone, throw, throwThe, MonadExceptOf.throw]
    · simp [bind, Except.bind, hcontents, h.slash, pure, Except.pure]
  exact congrArg (·, d) hfile

/-- A file is moved over another one, or to where nothing is. -/
theorem run_rename (hrooted : d.Rooted) (hsource : d.Reaches source (base ++ [name]))
    (htarget : d.Reaches target (base ++ [name'])) (hne : name ≠ name')
    (hentry : d.entry? (base ++ [name]) = some e) :
    ∃ d', d.run (FileStore.rename source target) = (.ok (), d') ∧
      d.Alters d' base [name, name'] ∧ d'.entry? (base ++ [name]) = none ∧
      d'.entry? (base ++ [name']) = some e := by
  obtain ⟨contents, rfl⟩ : ∃ contents, e = .file contents := by
    rcases hsource.loose with hnone | ⟨contents, hcontents⟩
    · cases hnone.symm.trans hentry
    · exact ⟨contents, Option.some.inj (hentry.symm.trans hcontents)⟩
  have hapart : ∀ {a b : String}, a ≠ b → ¬base ++ [a] <+: base ++ [b] := by
    intro a b hab hleads
    have heq := hleads.eq_of_length (by simp)
    exact hab (by simpa using heq)
  have hmove := hrooted.entry?_move hsource.loose.not_directory htarget.loose.not_directory hentry
  have hself : entry? (d.move (base ++ [name]) (base ++ [name'])) (base ++ [name']) =
      some (.file contents) := by rw [hmove, Function.update_self]
  have hrename : d.rename source target = .ok (d.move (base ++ [name]) (base ++ [name'])) := by
    have hsame : base ++ [name] ≠ base ++ [name'] := by simpa using hne
    have hbelow : (base ++ [name]).isPrefixOf (base ++ [name']) = false := by
      simpa [← List.isPrefixOf_iff_prefix] using hapart hne
    have habove : (base ++ [name']).isPrefixOf (base ++ [name]) = false := by
      simpa [← List.isPrefixOf_iff_prefix] using hapart hne.symm
    have hchildren := hrooted.children_eq_nil htarget.loose.not_directory
    rw [rename, hsource.resolve, htarget.resolve]
    simp only [bind, Except.bind, pure, Except.pure, hsource.dots, htarget.dots, hsource.slash,
      htarget.slash, hentry, hsame, hbelow, habove, Bool.false_eq_true, or_self, and_false, if_false]
    rcases htarget.loose with hnone | ⟨old, hold⟩
    · simp only [hnone]
    · simp [hold, hchildren, Entry.isDirectory]
  have hnothing : entry? (d.move (base ++ [name]) (base ++ [name'])) (base ++ [name]) = none := by
    rw [hmove, Function.update_of_ne (by simpa using hne), Function.update_self]
  refine ⟨d.move (base ++ [name]) (base ++ [name']), ?_, .of_loose rfl ?_ ?_ ?_, hnothing, hself⟩
  · change attempt (·.rename source target) d = _
    rw [attempt, hrename]
  · simpa using ⟨hsource.loose, htarget.loose⟩
  · simpa using And.intro (.inl hnothing) (.inr ⟨contents, hself⟩)
  · intro p hp
    simp only [List.mem_cons, List.not_mem_nil, or_false, forall_eq_or_imp, forall_eq] at hp
    rw [hmove, Function.update_of_ne hp.2, Function.update_of_ne hp.1]

theorem run_remove (hrooted : d.Rooted) (h : d.Reaches path (base ++ [name])) :
    ∃ d', d.run (FileStore.remove path) = ((), d') ∧ d.Alters d' base [name] := by
  rcases h.loose with hnone | ⟨contents, hcontents⟩
  · refine ⟨d, ?_, .refl⟩
    change tryTo (·.unlink path) d = _
    simp [tryTo, unlink, h.resolve, hnone, bind, Except.bind, throw, throwThe, MonadExceptOf.throw]
  · have hentry := hrooted.entry?_erase h.loose.not_directory
    refine ⟨d.erase (base ++ [name]), ?_, .of_loose rfl ?_ ?_ ?_⟩
    · change tryTo (·.unlink path) d = _
      simp [tryTo, unlink, h.resolve, hcontents, h.slash, bind, Except.bind, pure, Except.pure]
    · simpa using h.loose
    · simp [Loose, hentry]
    · intro p hp
      rw [hentry, Function.update_of_ne (by simpa using hp)]

end Reaches

/-! ## Reading -/

/-- A file in a directory is read if its path is not too long. -/
theorem DirectoryAt.read_join {directory : String} {contents : ByteArray}
    (h : d.DirectoryAt directory base) (hplain : Path.Plain name) (hname : Segment name)
    (hentry : d.entry? (base ++ [name]) = some (.file contents)) :
    d.read (Path.join directory name) =
      vet (Path.join directory name) >>= fun _ => .ok contents := by
  have hwalks := h.walks_join true hplain hname fun target htarget => by
    cases hentry.symm.trans htarget
  rw [read, find, resolve_eq, hwalks.walk_eq]
  cases vet (Path.join directory name) with
  | error e => rfl
  | ok => simp [bind, Except.bind, hentry, endsInSlash_join hplain, pure, Except.pure]

/-- The text of a file. -/
def text (d : Disk) (path : String) : Except IoError String :=
  match d.read path with
  | .error e => .error e
  | .ok bytes =>
    match String.fromUTF8? bytes with
    | none => .error .invalidUtf8
    | some text => .ok text

theorem run_readText (path : String) : d.run (FileSystem.readText path) = (d.text path, d) := by
  have hread : d.run (FileSystem.read path) = (d.read path, d) := rfl
  rw [FileSystem.readText, run_bind hread, text]
  cases d.read path with
  | error e => rfl
  | ok bytes => cases hbytes : String.fromUTF8? bytes <;> simp [hbytes]

/-- A file that lies in a directory as it did is read as it was. -/
theorem DirectoryAt.text_join_congr {directory : String} {contents : ByteArray}
    (h : d.DirectoryAt directory base) (h' : d'.DirectoryAt directory base)
    (hplain : Path.Plain name) (hname : Segment name)
    (hentry : d.entry? (base ++ [name]) = some (.file contents))
    (hentry' : d'.entry? (base ++ [name]) = some (.file contents)) :
    d'.text (Path.join directory name) = d.text (Path.join directory name) := by
  rw [text, text, h.read_join hplain hname hentry, h'.read_join hplain hname hentry']

end Disk

end SchemaCompiler
