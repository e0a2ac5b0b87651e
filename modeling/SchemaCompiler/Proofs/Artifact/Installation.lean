import SchemaCompiler.Proofs.Artifact.Layout
import SchemaCompiler.Proofs.FileSystem.Files

/-! # Artifacts on a disk

Where nothing is in the way of the three names of each artifact, writing succeeds: the artifacts are
there, and nothing has changed but what lies under these names. -/

namespace SchemaCompiler

namespace Artifact

/-! ## Room for artifacts -/

/-- Neither a directory nor a link is in the way of a file and of the two names that it takes up while it
is written. -/
structure Unobstructed (d : Disk) (output fileName : String) : Prop where
  temporary : d.Available (Path.join output (temporaryName fileName))
  target : d.Available (Path.join output fileName)
  backup : d.Available (backupPath (Path.join output fileName))

/-- The paths of a file and of its other two names lead into a directory. -/
structure Placed (d : Disk) (output : String) (base : Place) (fileName : String) : Prop where
  temporary : d.Reaches (Path.join output (temporaryName fileName)) (base ++ [temporaryName fileName])
  target : d.Reaches (Path.join output fileName) (base ++ [fileName])
  backup : d.Reaches (backupPath (Path.join output fileName)) (base ++ [backupName fileName])

/-- A disk on which there is room for files in a directory. -/
structure Ready (d : Disk) (output : String) (base : Place) (fileNames : List String) : Prop where
  rooted : d.Rooted
  directory : d.entry? base = some .directory
  placed : ∀ f ∈ fileNames, Placed d output base f

section Writing

variable {d d' : Disk} {output : String} {base : Place} {fileName : String}
  {fileNames names fileNames' : List String} {a : Artifact} {rest artifacts : List Artifact}

theorem Unobstructed.placed (h : Unobstructed d output fileName) (hplain : Path.Plain fileName)
    (houtput : d.DirectoryAt output base) : Placed d output base fileName where
  temporary := houtput.reaches_join (plain_temporaryName hplain) h.temporary
  target := houtput.reaches_join hplain h.target
  backup := by
    have hfile : Path.fileName? (Path.join output fileName) = some fileName := by
      obtain ⟨front, hpieces, -⟩ := Path.pieces_join output hplain
      exact (Path.parts_of_pieces hplain hpieces).1
    obtain ⟨parent, hpath, hparent⟩ := houtput.withFileName hplain (backupName fileName)
    have hbackup : backupPath (Path.join output fileName) = Path.join parent (backupName fileName) := by
      rw [backupPath, hfile]
      exact hpath
    have havailable := h.backup
    rw [hbackup] at havailable ⊢
    exact hparent.reaches_join (plain_backupName hplain) havailable

/-- In a directory there is room for a file when its three names are free of directories and links, and
not too long. -/
theorem unobstructed_of_reserved (houtput : d.DirectoryAt output base)
    (hbackup : backupPath (Path.join output fileName) = Path.join output (backupName fileName))
    (hname : ∀ name ∈ reserved fileName, Path.Plain name ∧ Disk.Segment name)
    (hvet : ∀ name ∈ reserved fileName, Disk.vet (Path.join output name) = .ok ())
    (hloose : ∀ name ∈ reserved fileName, d.Loose (base ++ [name])) :
    Unobstructed d output fileName := by
  have havailable : ∀ name ∈ reserved fileName, d.Available (Path.join output name) :=
    fun name h => houtput.available_join (hname name h).1 (hname name h).2 (hvet name h) (hloose name h)
  refine ⟨havailable _ (by simp [reserved]), havailable _ (by simp [reserved]), ?_⟩
  rw [hbackup]
  exact havailable _ (by simp [reserved])

theorem Ready.mono (h : Ready d output base fileNames) (hsub : fileNames' ⊆ fileNames) :
    Ready d output base fileNames' where
  rooted := h.rooted
  directory := h.directory
  placed f hf := h.placed f (hsub hf)

theorem Ready.alters (h : Ready d output base fileNames) (halters : d.Alters d' base names) :
    Ready d' output base fileNames where
  rooted := halters.rooted h.rooted h.directory
  directory := halters.keeps.directory base h.directory
  placed f hf :=
    ⟨halters.reaches (h.placed f hf).temporary, halters.reaches (h.placed f hf).target,
      halters.reaches (h.placed f hf).backup⟩

/-! ## Staging -/

/-- All temporary files are written. -/
theorem stage_succeeds (staged : List Staged) (hready : Ready d output base (rest.map (·.fileName)))
    (hdistinct : (rest.map (·.fileName)).Nodup) :
    ∃ d', d.run (stage output staged rest) = (.ok (staged ++ rest.map (staging output)), d') ∧
      d.Alters d' base (rest.map fun a => temporaryName a.fileName) ∧
      ∀ a ∈ rest, d'.entry? (base ++ [temporaryName a.fileName]) = some (.file a.contents.toUTF8) := by
  induction rest generalizing d staged with
  | nil => exact ⟨d, by simp [stage], .refl, by simp⟩
  | cons a rest ih =>
      rw [List.map_cons, List.nodup_cons] at hdistinct
      obtain ⟨d₁, hwrite, halters₁, hentry₁⟩ :=
        (hready.placed a.fileName (by simp)).temporary.run_write a.contents
      have hready₁ := (hready.alters halters₁).mono (List.subset_cons_self a.fileName _)
      obtain ⟨d', hrest, halters', hentries⟩ := ih (staged ++ [a.staging output]) hready₁ hdistinct.2
      refine ⟨d', ?_, (halters₁.mono (by simp)).trans (halters'.mono (by simp)), ?_⟩
      · rw [stage]
        refine (Disk.run_bind hwrite _).trans ?_
        simpa using hrest
      · intro b hb
        rcases List.mem_cons.mp hb with rfl | hb
        · rw [halters'.entry?_of_notMem, hentry₁]
          intro hmem
          obtain ⟨c, hc, hsame⟩ := List.mem_map.mp hmem
          exact hdistinct.1 (temporaryName_injective hsame ▸ List.mem_map_of_mem hc)
        · exact hentries b hb

/-! ## Committing -/

/-- A file that is there is moved to its backup. -/
theorem backUp_succeeds (hready : Ready d output base [fileName]) (hne : fileName ≠ backupName fileName) :
    ∃ backup d', d.run (backUp (Path.join output fileName)) = (.ok backup, d') ∧
      d.Alters d' base [fileName, backupName fileName] ∧
      ∀ path, backup = some path → path = backupPath (Path.join output fileName) := by
  have hplaced := hready.placed fileName (by simp)
  have hisFile := hplaced.target.run_isFile
  cases hentry : d.entry? (base ++ [fileName]) with
  | none =>
      refine ⟨none, d, ?_, .refl, by simp⟩
      rw [backUp, Disk.run_bind hisFile]
      simp [hentry]
  | some e =>
      obtain ⟨d', hrename, halters, -, -⟩ :=
        Disk.Reaches.run_rename hready.rooted hplaced.target hplaced.backup hne hentry
      refine ⟨some (backupPath (Path.join output fileName)), d', ?_, halters, by simp⟩
      rw [backUp, Disk.run_bind hisFile]
      simp only [hentry, Option.isSome_some, if_true]
      exact Disk.run_bind hrename _

/-- A temporary file replaces its target. -/
theorem replace_succeeds (hready : Ready d output base [a.fileName])
    (hdistinct : (reserved a.fileName).Nodup) {e : Disk.Entry}
    (hstaged : d.entry? (base ++ [temporaryName a.fileName]) = some e) :
    ∃ c d', d.run (replace (a.staging output)) = (.ok c, d') ∧
      d.Alters d' base (reserved a.fileName) ∧
      d'.entry? (base ++ [temporaryName a.fileName]) = none ∧
      d'.entry? (base ++ [a.fileName]) = some e ∧
      ∀ path, c.backup = some path → path = backupPath (a.staging output).target := by
  simp only [reserved, List.nodup_cons, List.mem_cons, List.not_mem_nil, or_false, not_or] at hdistinct
  obtain ⟨⟨htarget, hbackup⟩, hne, -⟩ := hdistinct
  obtain ⟨backup, d₁, hbackUp, halters₁, hpath⟩ := backUp_succeeds hready hne
  have hready₁ := hready.alters halters₁
  have hplaced₁ := hready₁.placed a.fileName (by simp)
  have hstaged₁ : d₁.entry? (base ++ [temporaryName a.fileName]) = some e := by
    rw [halters₁.entry?_of_notMem, hstaged]
    simpa using ⟨htarget, hbackup⟩
  obtain ⟨d', hrename, halters', hgone, hentry⟩ :=
    Disk.Reaches.run_rename hready₁.rooted hplaced₁.temporary hplaced₁.target htarget hstaged₁
  refine ⟨⟨(a.staging output).target, backup⟩, d', ?_, ?_, hgone, hentry, hpath⟩
  · rw [replace]
    refine (Disk.run_bind hbackUp _).trans ?_
    exact Disk.run_bind hrename _
  · exact (halters₁.mono (by simp [reserved])).trans (halters'.mono (by simp [reserved]))

/-- A replaced target has a backup under the name for it, or none. -/
def BacksUp (output : String) (a : Artifact) (c : Committed) : Prop :=
  ∀ path, c.backup = some path → path = backupPath (a.staging output).target

/-- All targets are replaced. -/
theorem commit_succeeds (committed : List Committed)
    (hready : Ready d output base (rest.map (·.fileName)))
    (hseparate : Separate (rest.map (·.fileName)))
    (hstaged : ∀ a ∈ rest,
      d.entry? (base ++ [temporaryName a.fileName]) = some (.file a.contents.toUTF8)) :
    ∃ done d', d.run (commit committed (rest.map (staging output))) = (.ok (committed ++ done), d') ∧
      d.Alters d' base ((rest.map (·.fileName)).flatMap reserved) ∧
      (∀ a ∈ rest, d'.entry? (base ++ [temporaryName a.fileName]) = none ∧
        d'.entry? (base ++ [a.fileName]) = some (.file a.contents.toUTF8)) ∧
      List.Forall₂ (BacksUp output) rest done := by
  induction rest generalizing d committed with
  | nil => exact ⟨[], d, by simp [commit], .refl, by simp, .nil⟩
  | cons a rest ih =>
      have hmem : a.fileName ∈ (a :: rest).map (·.fileName) := by simp
      obtain ⟨c, d₁, hreplace, halters₁, hgone₁, hentry₁, hbackup⟩ := replace_succeeds
        (hready.mono (by simp)) (hseparate.reserved_nodup hmem) (hstaged a List.mem_cons_self)
      -- the names of the others are left alone
      have hothers : ∀ {f g}, f ∈ rest.map (·.fileName) → g ∈ reserved f → g ∉ reserved a.fileName := by
        intro f g hf hg hga
        have hne : f ≠ a.fileName := by
          rintro rfl
          exact (List.nodup_cons.mp hseparate.distinct).1 hf
        exact hseparate.disjoint (List.mem_cons_of_mem _ hf) hmem hne hg hga
      have hrest : ∀ {f g}, f ∈ rest.map (·.fileName) → g ∈ reserved f →
          d₁.entry? (base ++ [g]) = d.entry? (base ++ [g]) :=
        fun hf hg => halters₁.entry?_of_notMem (hothers hf hg)
      have hstaged₁ : ∀ b ∈ rest,
          d₁.entry? (base ++ [temporaryName b.fileName]) = some (.file b.contents.toUTF8) := by
        intro b hb
        rw [hrest (List.mem_map_of_mem hb) (by simp [reserved])]
        exact hstaged b (List.mem_cons_of_mem a hb)
      obtain ⟨done, d', hcommit, halters', hentries, hbackups⟩ := ih (committed ++ [c])
        ((hready.alters halters₁).mono (by simp)) (hseparate.sublist (List.sublist_cons_self _ _))
        hstaged₁
      refine ⟨c :: done, d', ?_, ?_, ?_, .cons hbackup hbackups⟩
      · rw [List.map_cons, commit]
        refine (Disk.run_bind hreplace _).trans ?_
        simpa using hcommit
      · exact (halters₁.mono (by simp)).trans (halters'.mono (by simp))
      · intro b hb
        rcases List.mem_cons.mp hb with rfl | hb
        · -- what the first artifact has left stays as it is
          have hkept : ∀ g ∈ reserved b.fileName, d'.entry? (base ++ [g]) = d₁.entry? (base ++ [g]) := by
            intro g hg
            apply halters'.entry?_of_notMem
            intro hmem
            obtain ⟨f, hf, hg'⟩ := List.mem_flatMap.mp hmem
            exact hothers hf hg' hg
          rw [hkept _ (by simp [reserved]), hkept _ (by simp [reserved])]
          exact ⟨hgone₁, hentry₁⟩
        · exact hentries b hb

/-- All backups are removed. -/
theorem removeBackups_succeeds {committed : List Committed}
    (hready : Ready d output base (artifacts.map (·.fileName)))
    (hbackups : List.Forall₂ (BacksUp output) artifacts committed) :
    ∃ d', d.run (removeBackups committed) = ((), d') ∧
      d.Alters d' base (artifacts.map fun a => backupName a.fileName) := by
  induction hbackups generalizing d with
  | nil => exact ⟨d, by simp [removeBackups], .refl⟩
  | @cons a c artifacts committed hbackup _ ih =>
      have hrest : (artifacts.map (·.fileName)) ⊆ ((a :: artifacts).map (·.fileName)) := by simp
      rw [removeBackups]
      cases hpath : c.backup with
      | none =>
          obtain ⟨d', hrun, halters⟩ := ih (hready.mono hrest)
          exact ⟨d', hrun, halters.mono (by simp)⟩
      | some path =>
          obtain ⟨d₁, hremove, halters₁⟩ :=
            (hready.placed a.fileName (by simp)).backup.run_remove hready.rooted
          have hsame : path = backupPath (Path.join output a.fileName) := hbackup path hpath
          subst hsame
          obtain ⟨d', hrun, halters'⟩ := ih ((hready.alters halters₁).mono hrest)
          exact ⟨d', (Disk.run_bind hremove _).trans hrun,
            (halters₁.mono (by simp)).trans (halters'.mono (by simp))⟩

/-! ## Writing -/

/-- Where there is room for all artifacts, they are written, their temporary files are gone, and nothing
else has changed but what lies under their backup names. -/
theorem writeAll_succeeds (hready : Ready d output base (artifacts.map (·.fileName)))
    (hseparate : Separate (artifacts.map (·.fileName))) :
    ∃ d', d.run (writeAll output artifacts) = (.ok (artifacts.map digest), d') ∧
      d.Alters d' base ((artifacts.map (·.fileName)).flatMap reserved) ∧
      ∀ a ∈ artifacts, d'.entry? (base ++ [temporaryName a.fileName]) = none ∧
        d'.entry? (base ++ [a.fileName]) = some (.file a.contents.toUTF8) := by
  obtain ⟨d₁, hstage, halters₁, hstaged⟩ := stage_succeeds [] hready hseparate.distinct
  have hready₁ := hready.alters halters₁
  obtain ⟨done, d₂, hcommit, halters₂, hentries, hbackups⟩ := commit_succeeds [] hready₁ hseparate hstaged
  obtain ⟨d', hremove, halters'⟩ := removeBackups_succeeds (hready₁.alters halters₂) hbackups
  refine ⟨d', ?_, ?_, ?_⟩
  · rw [writeAll]
    refine (Disk.run_bind hstage _).trans ?_
    refine (Disk.run_bind hcommit _).trans ?_
    exact Disk.run_bind hremove _
  · have hnames : ∀ {name a}, a ∈ artifacts → name ∈ reserved a.fileName →
        name ∈ (artifacts.map (·.fileName)).flatMap reserved :=
      fun ha hname => List.mem_flatMap.mpr ⟨_, List.mem_map_of_mem ha, hname⟩
    refine ((halters₁.mono ?_).trans halters₂).trans (halters'.mono ?_)
    · rintro name hname
      obtain ⟨a, ha, rfl⟩ := List.mem_map.mp hname
      exact hnames ha (by simp [reserved])
    · rintro name hname
      obtain ⟨a, ha, rfl⟩ := List.mem_map.mp hname
      exact hnames ha (by simp [reserved])
  · intro a ha
    rw [halters'.entry?_of_notMem, halters'.entry?_of_notMem]
    · exact hentries a ha
    · intro hmem
      obtain ⟨b, hb, hsame⟩ := List.mem_map.mp hmem
      exact (hseparate.apart _ (List.mem_map_of_mem ha) _ (List.mem_map_of_mem hb)).2 hsame.symm
    · intro hmem
      obtain ⟨b, -, hsame⟩ := List.mem_map.mp hmem
      exact temporaryName_ne_backupName _ _ hsame.symm

end Writing

end Artifact

end SchemaCompiler
