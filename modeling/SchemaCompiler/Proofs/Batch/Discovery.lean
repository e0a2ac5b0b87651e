import SchemaCompiler.Batch.Discovery
import SchemaCompiler.Proofs.FileSystem.Directories
import SchemaCompiler.Proofs.FileSystem.Files

/-! # Which documents a run finds

The documents of a run are files of the input directory, in the order of their names, however the entries
of the directory are listed. No two of them have the same schema name. -/

namespace SchemaCompiler

/-! ## Extensions -/

namespace Path

variable {name stem extension : String}

theorem splitExtension_of_dot_notMem (h : '.' ∉ name.toList) : splitExtension name = (name, none) := by
  have hall : ∀ c ∈ name.toList.reverse, decide (c ≠ '.') = true := by
    intro c hc
    rw [decide_eq_true_eq]
    rintro rfl
    exact h (List.mem_reverse.mp hc)
  have htake : (name.toList.reverse ++ []).takeWhile (· ≠ '.') = name.toList.reverse ++ [] :=
    List.takeWhile_append_of_pos hall
  rw [List.append_nil] at htake
  simp only [splitExtension, htake, List.drop_length]

/-- The last dot parts a name, unless nothing stands in front of it. -/
theorem splitExtension_append (hdot : '.' ∉ extension.toList) :
    splitExtension (stem ++ "." ++ extension) =
      if stem = "" ∨ stem ++ "." ++ extension = ".." then (stem ++ "." ++ extension, none)
      else (stem, some extension) := by
  have hall : ∀ c ∈ extension.toList.reverse, decide (c ≠ '.') = true := by
    intro c hc
    rw [decide_eq_true_eq]
    rintro rfl
    exact hdot (List.mem_reverse.mp hc)
  have hreverse : (stem ++ "." ++ extension).toList.reverse =
      extension.toList.reverse ++ '.' :: stem.toList.reverse := by simp
  have htake : (stem ++ "." ++ extension).toList.reverse.takeWhile (· ≠ '.') =
      extension.toList.reverse := by
    rw [hreverse, List.takeWhile_append_of_pos hall]
    simp
  simp only [splitExtension, htake]
  rw [hreverse, List.drop_left]
  simp

theorem splitExtension_eq_some : splitExtension name = (stem, some extension) ↔
    name = stem ++ "." ++ extension ∧ stem ≠ "" ∧ '.' ∉ extension.toList ∧ name ≠ ".." := by
  constructor
  · intro h
    by_cases hmem : '.' ∈ name.toList.reverse
    · obtain ⟨back, front, hreverse, hdot⟩ := List.eq_append_cons_of_mem hmem
      have hname : name = String.ofList front.reverse ++ "." ++ String.ofList back.reverse := by
        rw [← String.toList_inj, ← List.reverse_inj, hreverse]
        simp
      have hback : '.' ∉ (String.ofList back.reverse).toList := by simpa using hdot
      rw [hname, splitExtension_append hback] at h
      split at h
      · simp at h
      · next hparts =>
          simp only [Prod.mk.injEq, Option.some.injEq] at h
          obtain ⟨rfl, rfl⟩ := h
          exact ⟨hname, fun hstem => hparts (.inl hstem), hback, fun hdots => hparts (.inr (hname ▸ hdots))⟩
    · rw [splitExtension_of_dot_notMem (fun hdot => hmem (List.mem_reverse.mpr hdot))] at h
      simp at h
  · rintro ⟨rfl, hstem, hdot, hdots⟩
    rw [splitExtension_append hdot, if_neg (by simp [hstem, hdots])]

end Path

namespace Batch

variable {directory : String} {i : Input} {e : DirectoryEntry} {entries entries' : List DirectoryEntry}
  {found found' : List Input}

/-- An entry is a document when it is a file whose name is a stem and the extension. -/
theorem ofEntry?_eq_some : Input.ofEntry? directory e = some i ↔
    e.isFile ∧ e.name = i.schema ++ ".json" ∧ i.schema ≠ "" ∧ i.path = Path.join directory e.name := by
  have hsplit : ∀ stem, Path.splitExtension e.name = (stem, some "json") ↔
      e.name = stem ++ ".json" ∧ stem ≠ "" := by
    intro stem
    have hjson : stem ++ "." ++ "json" = stem ++ ".json" := String.append_assoc
    rw [Path.splitExtension_eq_some, hjson]
    constructor
    · exact fun h => ⟨h.1, h.2.1⟩
    · rintro ⟨hname, hstem⟩
      refine ⟨hname, hstem, by decide, ?_⟩
      intro hdots
      have hlast := congrArg (fun s : String => s.toList.getLast?) (hname.symm.trans hdots)
      simp at hlast
  unfold Input.ofEntry?
  rcases hparts : Path.splitExtension e.name with ⟨stem, extension | extension⟩
  · simp only [reduceCtorEq, false_iff]
    rintro ⟨-, hname, hschema, -⟩
    rw [(hsplit i.schema).mpr ⟨hname, hschema⟩] at hparts
    simp at hparts
  · constructor
    · intro h
      simp only [Option.ite_none_right_eq_some, Option.some.injEq] at h
      obtain ⟨⟨hfile, rfl⟩, rfl⟩ := h
      obtain ⟨hname, hschema⟩ := (hsplit stem).mp hparts
      exact ⟨hfile, hname, hschema, rfl⟩
    · rintro ⟨hfile, hname, hschema, hpath⟩
      rw [(hsplit i.schema).mpr ⟨hname, hschema⟩] at hparts
      simp only [Prod.mk.injEq, Option.some.injEq] at hparts
      obtain ⟨rfl, rfl⟩ := hparts
      simp [hfile, ← hpath]

theorem mem_inputs : i ∈ inputs directory entries ↔
    ∃ e ∈ entries, Input.ofEntry? directory e = some i := by
  simp [inputs, List.mem_filterMap]

/-- Entries of different names are sorted strictly. -/
theorem sorted_ascending (h : (entries.map (·.name)).Nodup) :
    (entries.mergeSort fun a b => Path.nameLE a.name b.name).Pairwise
      fun a b => Path.nameBytes a.name < Path.nameBytes b.name := by
  apply Path.mergeSort_ascending fun e : DirectoryEntry => Path.nameBytes e.name
  exact List.pairwise_map.mpr ((List.pairwise_map.mp h).imp Path.nameBytes_injective.ne)

/-- The file of a document. -/
def Input.fileName (i : Input) : String :=
  i.schema ++ ".json"

/-- Documents in the order of the bytes of their files' names, each of them once. -/
def Ascending (found : List Input) : Prop :=
  found.Pairwise fun i j => Path.nameBytes i.fileName < Path.nameBytes j.fileName

theorem Ascending.nodup (h : Ascending found) : found.Nodup := by
  refine List.Pairwise.imp ?_ h
  rintro i _ hlt rfl
  exact List.lt_irrefl _ hlt

/-- Documents can be put in order in one way only. -/
theorem Ascending.eq_of_mem_iff (h : Ascending found) (h' : Ascending found')
    (hmem : ∀ i, i ∈ found ↔ i ∈ found') : found = found' := by
  refine List.Perm.eq_of_pairwise ?_ h h' ((List.perm_ext_iff_of_nodup h.nodup h'.nodup).mpr hmem)
  intro i j _ _ hij hji
  exact absurd hji (List.lt_asymm hij)

theorem inputs_ascending (h : (entries.map (·.name)).Nodup) : Ascending (inputs directory entries) := by
  refine (sorted_ascending h).filterMap _ ?_
  intro a b hlt i hi j hj
  obtain ⟨-, ha, -⟩ := ofEntry?_eq_some.mp hi
  obtain ⟨-, hb, -⟩ := ofEntry?_eq_some.mp hj
  rwa [ha, hb] at hlt

/-- The order in which entries are listed makes no difference. -/
theorem inputs_perm (h : (entries.map (·.name)).Nodup) (hperm : entries'.Perm entries) :
    inputs directory entries' = inputs directory entries := by
  have h' : (entries'.map (·.name)).Nodup := (hperm.map _).nodup_iff.mpr h
  refine (inputs_ascending h').eq_of_mem_iff (inputs_ascending h) fun i => ?_
  simp only [mem_inputs, hperm.mem_iff]

/-- Documents of different files have different schema names. -/
theorem schemas_nodup (h : (entries.map (·.name)).Nodup) :
    ((inputs directory entries).map (·.schema)).Nodup := by
  refine List.pairwise_map.mpr (List.Pairwise.imp ?_ (inputs_ascending h))
  intro i j hlt heq
  rw [Input.fileName, Input.fileName, heq] at hlt
  exact List.lt_irrefl _ hlt

/-! ## Documents on a disk -/

section OnDisk

variable {d d' : Disk} {base : Place}

/-- A document is a file in a directory. -/
structure Found (d : Disk) (directory : String) (base : Place) (i : Input) : Prop where
  inside : d.DirectoryAt directory base
  path : i.path = Path.join directory i.fileName
  plain : Path.Plain i.fileName
  segment : Disk.Segment i.fileName
  file : ∃ contents, d.entry? (base ++ [i.fileName]) = some (.file contents)

theorem found_of_mem (hsound : d.Sound) (hlist : d.list directory = .ok entries)
    (hi : i ∈ inputs directory entries) : ∃ base, Found d directory base i := by
  obtain ⟨e, he, hofEntry⟩ := mem_inputs.mp hi
  obtain ⟨hfile, hname, -, hpath⟩ := ofEntry?_eq_some.mp hofEntry
  rcases Disk.list_eq_ok hlist with rfl | ⟨base, hbase, rfl⟩
  · cases he
  · obtain ⟨⟨name, entry⟩, hchild, rfl⟩ := List.mem_map.mp he
    obtain ⟨hplain, hlength⟩ := hsound.named _ (Disk.mem_children.mp hchild) name (by simp)
    have hentry := (Disk.entry?_child_eq_some hsound.distinct).mpr hchild
    obtain rfl : name = i.fileName := hname
    refine ⟨base, hbase, hpath, hplain, ⟨hplain.ne_dot, hplain.ne_dots, hlength⟩, ?_⟩
    cases entry with
    | file contents => exact ⟨contents, hentry⟩
    | directory => cases hfile
    | link => cases hfile

/-- A document that lies where it lay is read as it was. -/
theorem Found.text_eq (h : Found d directory base i) (hdirectory : d'.DirectoryAt directory base)
    (hentry : d'.entry? (base ++ [i.fileName]) = d.entry? (base ++ [i.fileName])) :
    d'.text i.path = d.text i.path := by
  obtain ⟨contents, hfile⟩ := h.file
  rw [h.path]
  exact h.inside.text_join_congr hdirectory h.plain h.segment hfile (hentry.trans hfile)

theorem run_discover (hlist : d.list directory = .ok entries) :
    d.run (discover directory) = (.ok (inputs directory entries), d) := by
  have hentries : d.run (FileSystem.entries directory) = (.ok entries, d) := by
    change (d.list directory, d) = _
    rw [hlist]
  rw [discover, Disk.run_bind hentries]
  exact Disk.run_pure _

/-- No two documents of a directory have the same schema name. -/
theorem schemas_nodup_of_list (hsound : d.Sound) (hlist : d.list directory = .ok entries) :
    ((inputs directory entries).map (·.schema)).Nodup := by
  apply schemas_nodup
  rcases Disk.list_eq_ok hlist with rfl | ⟨base, -, rfl⟩
  · exact List.nodup_nil
  · exact Disk.nodup_listing hsound.distinct base

end OnDisk

end Batch

end SchemaCompiler
