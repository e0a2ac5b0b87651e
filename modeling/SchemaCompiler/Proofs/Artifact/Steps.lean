import SchemaCompiler.Proofs.Artifact.Layout

/-! # Steps of writing

What each operation of a run makes of the one artifact that it is about, and what the three ways of
cleaning up make of several. -/

namespace SchemaCompiler

namespace Artifact

open Volume (Entries)

variable {current : Place}

/-! ## Runs -/

section Runs

variable (v : Volume current)

theorem run_backUp (target : String) : v.run (backUp target) =
    if v.isFile target then
      match v.rename target (backupPath target) with
      | (.error e, w) => (.error e, w)
      | (.ok (), w) => (.ok (some (backupPath target)), w)
    else (.ok none, v) := by
  rw [backUp, Volume.run_bind, Volume.run_isFile]
  split
  · rw [Volume.run_bind, Volume.run_rename]
    rcases v.rename target (backupPath target) with ⟨_ | _, w⟩ <;> rfl
  · rfl

theorem run_replace (s : Staged) : v.run (replace s) =
    match v.run (backUp s.target) with
    | (.error e, w) => (.error e, w)
    | (.ok backup, w) =>
      match w.rename s.temporary s.target with
      | (.ok (), w) => (.ok ⟨s.target, backup⟩, w)
      | (.error e, w) => (.error e, match backup with
        | some path => w.restore path s.target
        | none => w) := by
  rw [replace, Volume.run_bind]
  rcases v.run (backUp s.target) with ⟨_ | backup, w⟩
  · rfl
  · simp only [Volume.run_bind, Volume.run_rename]
    rcases w.rename s.temporary s.target with ⟨_ | _, w⟩
    · cases backup <;> rfl
    · rfl

end Runs

/-! ## Sweeps -/

/-- The directory is there. -/
def Present (base : Place) (v : Volume current) : Prop :=
  v.entries.at? base = some .directory

section Sweeps

variable {initial : Entries} {base : Place} {artifacts as : List Artifact}

/-- Steps that each take one artifact to a phase take all of them there, one after the other. -/
theorem sweep {before after : Phase} (step : Artifact → Volume current → Volume current)
    (hplaceable : Placeable initial base artifacts) (hsub : as ⊆ artifacts) (hnodup : as.Nodup)
    (hstep : ∀ a ∈ as, ∀ v, Present base v → a.Stands initial base before v.entries →
      Reaches initial base after [a] v.entries (step a v).entries)
    (v : Volume current) (hpresent : Present base v)
    (hstands : ∀ a ∈ as, a.Stands initial base before v.entries) :
    Reaches initial base after as v.entries (as.foldl (fun v a => step a v) v).entries := by
  induction as generalizing v with
  | nil => exact ⟨.refl, by simp⟩
  | cons a as ih =>
      rw [List.nodup_cons] at hnodup
      have ha : a ∈ artifacts := hsub (by simp)
      have hfirst := hstep a (by simp) v hpresent (hstands a (by simp))
      have hrest : ∀ b ∈ as, b.Stands initial base before (step a v).entries := by
        intro b hb
        have hnot : b ∉ [a] := by
          intro heq
          exact hnodup.1 (List.mem_singleton.mp heq ▸ hb)
        exact hfirst.confined.stands hplaceable (by simpa using ha) (hsub (by simp [hb])) hnot
          (hstands b (by simp [hb]))
      have htail := ih (fun b hb => hsub (by simp [hb])) hnodup.2
        (fun b hb => hstep b (by simp [hb])) (step a v)
        (hfirst.confined.at?_base.trans hpresent) hrest
      rw [List.foldl_cons]
      refine ⟨(hfirst.confined.mono (by simp)).trans (htail.confined.mono (by simp)), ?_⟩
      intro b hb
      rcases List.mem_cons.mp hb with rfl | hb
      · exact htail.confined.stands hplaceable (fun b hb => hsub (by simp [hb])) ha hnodup.1
          (hfirst.stands _ (by simp))
      · exact htail.stands b hb

end Sweeps

/-! ## Places -/

section Writing

variable {directory : String} {base : Place} {initial : Entries} {artifacts as : List Artifact}
  {a : Artifact}

theorem place_temporary (hbase : Volume.place current directory = base) (h : Path.Plain a.fileName) :
    Volume.place current (a.staging directory).temporary = base ++ [temporaryName a.fileName] := by
  rw [← hbase]
  exact Volume.place_join (plain_temporaryName h)

theorem place_target (hbase : Volume.place current directory = base) (h : Path.Plain a.fileName) :
    Volume.place current (a.staging directory).target = base ++ [a.fileName] := by
  rw [← hbase]
  exact Volume.place_join h

theorem place_backup (hbase : Volume.place current directory = base) (h : Path.Plain a.fileName) :
    Volume.place current (backupPath (a.staging directory).target) =
      base ++ [backupName a.fileName] := by
  obtain ⟨front, hpieces, -⟩ := Path.pieces_join directory h
  obtain ⟨hname, -⟩ := Path.parts_of_pieces h hpieces
  rw [backupPath, staging, hname, ← hbase]
  exact Volume.place_withFileName h (plain_backupName h)

/-! ## Clean-up -/

/-- Whatever is in a temporary file, its artifact is untouched without it. -/
theorem remove_temporary (hbase : Volume.place current directory = base)
    (hplaceable : Placeable initial base artifacts) (ha : a ∈ artifacts) {v : Volume current}
    {entry : Option Volume.Entry} (hfile : entry ≠ some .directory)
    (h : a.slots base v.entries = ⟨entry, initial (base ++ [a.fileName]), none⟩) :
    Reaches initial base .untouched [a] v.entries
      (v.remove (a.staging directory).temporary).entries := by
  have htemporary : v.entries (base ++ [temporaryName a.fileName]) = entry :=
    congrArg Slots.temporary h
  rw [Volume.remove_entries (place_temporary hbase (hplaceable.plain ha)) (htemporary ▸ hfile)]
  apply reaches_singleton (confined_update (by simp [reserved]) none)
  rw [Stands, slots_update_temporary hplaceable ha, h]
  rfl

theorem run_discard (as : List Artifact) (v : Volume current) :
    (v.run (discard (as.map (staging directory)))).2 =
      as.foldl (fun v a => v.remove (a.staging directory).temporary) v := by
  induction as generalizing v with
  | nil => rfl
  | cons a as ih => exact ih (v.remove (a.staging directory).temporary)

theorem discard_reaches (hbase : Volume.place current directory = base)
    (hplaceable : Placeable initial base artifacts) (hsub : as ⊆ artifacts) (hnodup : as.Nodup)
    {v : Volume current} (hpresent : Present base v)
    (hstands : ∀ a ∈ as, a.Stands initial base .staged v.entries) :
    Reaches initial base .untouched as v.entries
      (v.run (discard (as.map (staging directory)))).2.entries := by
  rw [run_discard]
  apply sweep _ hplaceable hsub hnodup _ v hpresent hstands
  intro a ha v _ hstands
  exact remove_temporary hbase hplaceable (hsub ha) (by simp) hstands

/-- What is noted of an artifact that has replaced its target. -/
def commitment (initial : Entries) (base : Place) (directory : String) (a : Artifact) : Committed :=
  ⟨(a.staging directory).target,
    match initial (base ++ [a.fileName]) with
    | some (.file _) => some (backupPath (a.staging directory).target)
    | _ => none⟩

/-- Undoes one replacement. -/
def undoOne (v : Volume current) (c : Committed) : Volume current :=
  match c.backup with
  | some backup => v.restore backup c.target
  | none => v.remove c.target

theorem run_undo (cs : List Committed) (v : Volume current) :
    (v.run (undo cs)).2 = cs.foldl undoOne v := by
  induction cs generalizing v with
  | nil => rfl
  | cons c cs ih =>
      rw [List.foldl_cons, ← ih]
      obtain ⟨target, _ | backup⟩ := c <;> rfl

/-- A backup that is moved back leaves the target as it was. -/
theorem restore_backup (hbase : Volume.place current directory = base)
    (hplaceable : Placeable initial base artifacts) (ha : a ∈ artifacts) {v : Volume current}
    (hpresent : Present base v) {temporary target : Option Volume.Entry} {contents : ByteArray}
    (hfile : target ≠ some .directory)
    (h : a.slots base v.entries = ⟨temporary, target, some (.file contents)⟩) :
    Confined base [a] v.entries
        (v.restore (backupPath (a.staging directory).target) (a.staging directory).target).entries ∧
      a.slots base
        (v.restore (backupPath (a.staging directory).target) (a.staging directory).target).entries =
          ⟨temporary, some (.file contents), none⟩ := by
  have hplain := hplaceable.plain ha
  have hbackup : v.entries (base ++ [backupName a.fileName]) = some (.file contents) :=
    congrArg Slots.backup h
  have htarget : v.entries (base ++ [a.fileName]) = target := congrArg Slots.target h
  have hmove : v.entries.move (base ++ [backupName a.fileName]) (base ++ [a.fileName]) = .ok _ :=
    Volume.Entries.move_eq_ok.mpr ⟨contents, by rw [Volume.Entries.at?_inner, hbackup],
      (Volume.Entries.accept_inner hpresent).mpr (htarget ▸ hfile), rfl⟩
  rw [← place_backup hbase hplain, ← place_target hbase hplain] at hmove
  rw [Volume.restore_entries hmove, place_backup hbase hplain, place_target hbase hplain]
  constructor
  · exact (confined_update (by simp [reserved]) none).trans (confined_update (by simp [reserved]) _)
  · rw [slots_update_target hplaceable ha, slots_update_backup hplaceable ha, h]

theorem undoOne_reaches (hbase : Volume.place current directory = base)
    (hplaceable : Placeable initial base artifacts) (ha : a ∈ artifacts) {v : Volume current}
    (hpresent : Present base v) (hold : initial (base ++ [a.fileName]) ≠ some .directory)
    (h : a.Stands initial base .replaced v.entries) :
    Reaches initial base .untouched [a] v.entries
      (undoOne v (commitment initial base directory a)).entries := by
  have hplain := hplaceable.plain ha
  rcases Volume.none_or_file hold with hinitial | ⟨contents, hinitial⟩
  · have htarget : v.entries (base ++ [a.fileName]) ≠ some .directory := by
      have hslot := congrArg Slots.target h
      simp only [slots, Phase.slots] at hslot
      simp [hslot]
    rw [undoOne, commitment, hinitial]
    simp only
    rw [Volume.remove_entries (place_target hbase hplain) htarget]
    apply reaches_singleton (confined_update (by simp [reserved]) none)
    rw [Stands, slots_update_target hplaceable ha, h, hinitial]
    rfl
  · rw [Stands, hinitial] at h
    obtain ⟨hconfined, hslots⟩ := restore_backup hbase hplaceable ha hpresent (by simp) h
    rw [undoOne, commitment, hinitial]
    apply reaches_singleton hconfined
    rw [Stands, hinitial]
    exact hslots

theorem undo_reaches (hbase : Volume.place current directory = base)
    (hplaceable : Placeable initial base artifacts) (hsub : as ⊆ artifacts) (hnodup : as.Nodup)
    (hold : ∀ a ∈ as, initial (base ++ [a.fileName]) ≠ some .directory) {v : Volume current}
    (hpresent : Present base v) (hstands : ∀ a ∈ as, a.Stands initial base .replaced v.entries) :
    Reaches initial base .untouched as v.entries
      (v.run (undo (as.map (commitment initial base directory)))).2.entries := by
  rw [run_undo, List.foldl_map]
  apply sweep (fun a v => undoOne v (commitment initial base directory a)) hplaceable hsub
    hnodup _ v hpresent hstands
  intro a ha v hpresent hstands
  exact undoOne_reaches hbase hplaceable (hsub ha) hpresent (hold a ha) hstands

/-- Removes the backup of one replacement. -/
def dropBackup (v : Volume current) (c : Committed) : Volume current :=
  match c.backup with
  | some backup => v.remove backup
  | none => v

theorem run_removeBackups (cs : List Committed) (v : Volume current) :
    (v.run (removeBackups cs)).2 = cs.foldl dropBackup v := by
  induction cs generalizing v with
  | nil => rfl
  | cons c cs ih =>
      rw [List.foldl_cons, ← ih]
      obtain ⟨target, _ | backup⟩ := c <;> rfl

theorem dropBackup_reaches (hbase : Volume.place current directory = base)
    (hplaceable : Placeable initial base artifacts) (ha : a ∈ artifacts) {v : Volume current}
    (hold : initial (base ++ [a.fileName]) ≠ some .directory)
    (h : a.Stands initial base .replaced v.entries) :
    Reaches initial base .finished [a] v.entries
      (dropBackup v (commitment initial base directory a)).entries := by
  have hbackup : v.entries (base ++ [backupName a.fileName]) = initial (base ++ [a.fileName]) :=
    congrArg Slots.backup h
  rcases Volume.none_or_file hold with hinitial | ⟨contents, hinitial⟩
  · rw [dropBackup, commitment, hinitial]
    apply reaches_singleton .refl
    rw [Stands, h, hinitial]
    rfl
  · rw [dropBackup, commitment, hinitial]
    simp only
    rw [Volume.remove_entries (place_backup hbase (hplaceable.plain ha)) (hbackup ▸ hold)]
    apply reaches_singleton (confined_update (by simp [reserved]) none)
    rw [Stands, slots_update_backup hplaceable ha, h]
    rfl

theorem removeBackups_reaches (hbase : Volume.place current directory = base)
    (hplaceable : Placeable initial base artifacts)
    (hold : ∀ a ∈ artifacts, initial (base ++ [a.fileName]) ≠ some .directory) {v : Volume current}
    (hpresent : Present base v)
    (hstands : ∀ a ∈ artifacts, a.Stands initial base .replaced v.entries) :
    Reaches initial base .finished artifacts v.entries
      (v.run (removeBackups (artifacts.map (commitment initial base directory)))).2.entries := by
  rw [run_removeBackups, List.foldl_map]
  apply sweep (fun a v => dropBackup v (commitment initial base directory a)) hplaceable
    (List.Subset.refl artifacts) hplaceable.nodup _ v hpresent hstands
  intro a ha v _ hstands
  exact dropBackup_reaches hbase hplaceable ha (hold a ha) hstands

/-! ## Staging -/

/-- A write either stages its artifact or leaves at most a broken temporary file. -/
theorem write_temporary (hbase : Volume.place current directory = base)
    (hplaceable : Placeable initial base artifacts) (ha : a ∈ artifacts) {v w : Volume current}
    {result : Except IoError Unit} (h : a.Stands initial base .untouched v.entries)
    (hwrite : v.write (a.staging directory).temporary a.contents = (result, w)) :
    Confined base [a] v.entries w.entries ∧
      match result with
      | .ok () => a.Stands initial base .staged w.entries
      | .error _ => ∃ entry, entry ≠ some .directory ∧
          a.slots base w.entries = ⟨entry, initial (base ++ [a.fileName]), none⟩ := by
  have hwritten := v.write_written (a.staging directory).temporary a.contents
  rw [hwrite, place_temporary hbase (hplaceable.plain ha)] at hwritten
  cases hwritten with
  | done =>
      refine ⟨confined_update (by simp [reserved]) _, ?_⟩
      rw [Stands, Volume.leave_entries, slots_update_temporary hplaceable ha, h]
      rfl
  | refused => exact ⟨.refl, none, by simp, h⟩
  | broken _ _ remains =>
      refine ⟨confined_update (by simp [reserved]) _, some (.file remains), by simp, ?_⟩
      exact (slots_update_temporary hplaceable ha _).trans (by rw [h]; rfl)

/-! ## Replacing -/

theorem isFile_target (hbase : Volume.place current directory = base) (hplain : Path.Plain a.fileName)
    {v : Volume current} : v.isFile (a.staging directory).target ↔
      ∃ contents, v.entries (base ++ [a.fileName]) = some (.file contents) := by
  rw [Volume.isFile, place_target hbase hplain, Volume.Entries.at?_inner]
  split
  · next contents h => simp [h]
  · next hnot => simpa using fun contents h => hnot contents h

/-- A target that is not a directory is moved aside, or stays. -/
theorem backUp_cases (hbase : Volume.place current directory = base)
    (hplaceable : Placeable initial base artifacts) (ha : a ∈ artifacts) {v : Volume current}
    (hold : initial (base ++ [a.fileName]) ≠ some .directory)
    (h : a.Stands initial base .staged v.entries) :
    (∃ error w, v.run (backUp (a.staging directory).target) = (.error error, w) ∧
      w.entries = v.entries) ∨
    ∃ w, v.run (backUp (a.staging directory).target) =
        (.ok (commitment initial base directory a).backup, w) ∧
      Confined base [a] v.entries w.entries ∧ a.Stands initial base .aside w.entries := by
  have hplain := hplaceable.plain ha
  have htarget : v.entries (base ++ [a.fileName]) = initial (base ++ [a.fileName]) :=
    congrArg Slots.target h
  have hfile := isFile_target (v := v) hbase hplain
  rw [run_backUp, commitment]
  rcases Volume.none_or_file hold with hinitial | ⟨contents, hinitial⟩
  · rw [if_neg (by rw [hfile, htarget, hinitial]; simp), hinitial]
    refine .inr ⟨v, rfl, .refl, ?_⟩
    rw [Stands, h, hinitial]
    rfl
  · rw [if_pos (by rw [hfile, htarget, hinitial]; simp), hinitial]
    rcases Volume.rename_cases (v := v) (place_target hbase hplain) (place_backup hbase hplain) with
      ⟨error, hrename⟩ | ⟨e, hmove, hrename⟩
    · rw [hrename]
      exact .inl ⟨error, _, rfl, rfl⟩
    · rw [hrename]
      obtain ⟨old, hat, -, rfl⟩ := Volume.Entries.move_eq_ok.mp hmove
      rw [Volume.Entries.at?_inner, htarget, hinitial] at hat
      cases hat
      refine .inr ⟨_, rfl, ?_, ?_⟩
      · exact (confined_update (by simp [reserved]) none).trans (confined_update (by simp [reserved]) _)
      · rw [Stands, Volume.leave_entries, slots_update_backup hplaceable ha,
          slots_update_target hplaceable ha, h, hinitial]
        rfl

/-- What is put back after a failed replacement. -/
def putBack (w : Volume current) (c : Committed) : Volume current :=
  match c.backup with
  | some backup => w.restore backup c.target
  | none => w

theorem putBack_reaches (hbase : Volume.place current directory = base)
    (hplaceable : Placeable initial base artifacts) (ha : a ∈ artifacts) {w : Volume current}
    (hpresent : Present base w) (hold : initial (base ++ [a.fileName]) ≠ some .directory)
    (h : a.Stands initial base .aside w.entries) :
    Reaches initial base .staged [a] w.entries
      (putBack w (commitment initial base directory a)).entries := by
  rcases Volume.none_or_file hold with hinitial | ⟨contents, hinitial⟩
  · rw [putBack, commitment, hinitial]
    apply reaches_singleton .refl
    rw [Stands, h, hinitial]
    rfl
  · rw [Stands, hinitial] at h
    obtain ⟨hconfined, hslots⟩ := restore_backup hbase hplaceable ha hpresent (by simp) h
    rw [putBack, commitment, hinitial]
    apply reaches_singleton hconfined
    rw [Stands, hinitial]
    exact hslots

/-- A directory in the way of a target makes its replacement fail and stays. -/
theorem replace_directory (hbase : Volume.place current directory = base)
    (hplaceable : Placeable initial base artifacts) (ha : a ∈ artifacts) {v : Volume current}
    (hold : initial (base ++ [a.fileName]) = some .directory)
    (h : a.Stands initial base .staged v.entries) :
    ∃ error w, v.run (replace (a.staging directory)) = (.error error, w) ∧
      w.entries = v.entries := by
  have hplain := hplaceable.plain ha
  have htarget : v.entries (base ++ [a.fileName]) = some .directory :=
    (congrArg Slots.target h).trans hold
  rw [run_replace, run_backUp, if_neg (by rw [isFile_target hbase hplain, htarget]; simp)]
  rcases Volume.rename_cases (v := v) (place_temporary hbase hplain) (place_target hbase hplain) with
    ⟨error, hrename⟩ | ⟨e, hmove, -⟩
  · exact ⟨error, v.leave v.entries, by simp only [hrename], rfl⟩
  · obtain ⟨_, -, haccept, -⟩ := Volume.Entries.move_eq_ok.mp hmove
    rw [Volume.Entries.accept_eq_ok, Volume.Entries.at?_inner] at haccept
    exact absurd htarget haccept.2

/-- A replacement succeeds or leaves the volume as it was. -/
theorem replace_cases (hbase : Volume.place current directory = base)
    (hplaceable : Placeable initial base artifacts) (ha : a ∈ artifacts) {v : Volume current}
    (hpresent : Present base v) (h : a.Stands initial base .staged v.entries) :
    (∃ error w, v.run (replace (a.staging directory)) = (.error error, w) ∧
      w.entries = v.entries) ∨
    ∃ w, v.run (replace (a.staging directory)) = (.ok (commitment initial base directory a), w) ∧
      initial (base ++ [a.fileName]) ≠ some .directory ∧
      Reaches initial base .replaced [a] v.entries w.entries := by
  by_cases hold : initial (base ++ [a.fileName]) = some .directory
  · exact .inl (replace_directory hbase hplaceable ha hold h)
  · have hplain := hplaceable.plain ha
    rw [run_replace]
    rcases backUp_cases hbase hplaceable ha hold h with
      ⟨error, w, hrun, hentries⟩ | ⟨w, hrun, hconfined, haside⟩
    · rw [hrun]
      exact .inl ⟨error, w, rfl, hentries⟩
    · rw [hrun]
      rcases Volume.rename_cases (v := w) (place_temporary hbase hplain)
        (place_target hbase hplain) with ⟨error, hrename⟩ | ⟨e, hmove, hrename⟩
      · have hpresent' : Present base (w.leave w.entries) := hconfined.at?_base.trans hpresent
        have hback := putBack_reaches hbase hplaceable ha hpresent' hold haside
        refine .inl ⟨error, _, by simp only [hrename]; rfl, ?_⟩
        apply (hconfined.trans hback.confined).eq_of_slots
        intro b hb
        rw [List.mem_singleton.mp hb]
        exact (hback.stands a (by simp)).trans h.symm
      · obtain ⟨contents, hat, -, rfl⟩ := Volume.Entries.move_eq_ok.mp hmove
        have htemporary : w.entries (base ++ [temporaryName a.fileName]) =
            some (.file a.contents.toUTF8) := congrArg Slots.temporary haside
        rw [Volume.Entries.at?_inner, htemporary] at hat
        cases hat
        refine .inr ⟨_, by simp only [hrename]; rfl, hold, reaches_singleton ?_ ?_⟩
        · exact hconfined.trans ((confined_update (by simp [reserved]) none).trans
            (confined_update (by simp [reserved]) _))
        · rw [Stands, Volume.leave_entries, slots_update_target hplaceable ha,
            slots_update_temporary hplaceable ha, haside]
          rfl

end Writing

end Artifact

end SchemaCompiler
