import SchemaCompiler.Proofs.Batch.Modules

/-! # The names of documents and artifacts

Discovery finds the documents of a directory and nothing else, in one order, whatever the order in which the
directory is listed. The name of an artifact tells which document it comes from, even where the names of
documents hold dots and the words for types of databases. So no two artifacts of a run share a name. -/

namespace SchemaCompiler

/-! ## Names of artifacts -/

namespace Artifact

variable {mode : Mode} {options : EmissionOptions} {schema schema' text text' f : String}

/-- The names of the artifacts that a text comes to, if it compiles. -/
def fileNames (mode : Mode) (options : EmissionOptions) (schema text : String) : List String :=
  match emit mode options schema text with
  | .ok artifacts => artifacts.map (·.fileName)
  | .error _ => []

theorem fileNames_sql (options : EmissionOptions) (schema text : String) :
    ∃ kinds : List DatabaseKind,
      fileNames .sql options schema text = kinds.map (scriptName schema) ∧ kinds.Nodup := by
  unfold fileNames
  split
  · next h => exact Batch.scriptNames_of_emit h
  · exact ⟨[], rfl, List.nodup_nil⟩

theorem fileNames_descriptor (options : EmissionOptions) (schema text : String) :
    (fileNames .descriptor options schema text).Sublist
      [moduleName schema options.descriptor.extension] := by
  unfold fileNames
  split
  · next h => rw [Batch.fileNames_of_emit h]
  · exact List.nil_sublist _

theorem nodup_fileNames : (fileNames mode options schema text).Nodup := by
  cases mode with
  | sql =>
      obtain ⟨kinds, hnames, hkinds⟩ := fileNames_sql options schema text
      rw [hnames]
      exact hkinds.map fun _ _ h => (Batch.scriptName_injective h).2
  | descriptor => exact (List.nodup_singleton _).sublist (fileNames_descriptor options schema text)

/-- The name of an artifact tells which document it comes from. -/
theorem schema_eq_of_mem_fileNames (h : f ∈ fileNames mode options schema text)
    (h' : f ∈ fileNames mode options schema' text') : schema = schema' := by
  cases mode with
  | sql =>
      obtain ⟨kinds, hnames, -⟩ := fileNames_sql options schema text
      obtain ⟨kinds', hnames', -⟩ := fileNames_sql options schema' text'
      rw [hnames] at h
      rw [hnames'] at h'
      obtain ⟨kind, -, rfl⟩ := List.mem_map.mp h
      obtain ⟨kind', -, heq⟩ := List.mem_map.mp h'
      exact (Batch.scriptName_injective heq).1.symm
  | descriptor =>
      have hname := List.mem_singleton.mp ((fileNames_descriptor options schema text).subset h)
      have hname' := List.mem_singleton.mp ((fileNames_descriptor options schema' text').subset h')
      exact Batch.moduleName_injective (hname.symm.trans hname')

end Artifact

/-! ## Documents of a directory -/

namespace Batch

variable {d : Disk} {directory : String} {base : Place} {found : List Input}

/-- The documents of a directory: one for each of its files whose name is a stem and the extension, in the
order of the bytes of their names. -/
structure Discovers (d : Disk) (directory : String) (base : Place) (found : List Input) : Prop where
  mem_iff : ∀ i, i ∈ found ↔ i.schema ≠ "" ∧ i.path = Path.join directory i.fileName ∧
    ∃ contents, d.entry? (base ++ [i.fileName]) = some (.file contents)
  ascending : Ascending found

theorem discovers_inputs (hsound : d.Sound) (directory : String) (base : Place) :
    Discovers d directory base (inputs directory (d.listing base)) where
  mem_iff := by
    intro i
    rw [mem_inputs, ← Disk.mem_listing hsound.distinct]
    simp only [ofEntry?_eq_some]
    constructor
    · rintro ⟨⟨name, isFile⟩, he, rfl, rfl, hschema, hpath⟩
      exact ⟨hschema, hpath, he⟩
    · rintro ⟨hschema, hpath, he⟩
      exact ⟨_, he, rfl, rfl, hschema, hpath⟩
  ascending := inputs_ascending (Disk.nodup_listing hsound.distinct base)

/-- Discovery finds every document of a directory once, in the order of names, however the entries of the
directory are listed. No two documents share a schema name, and no two artifacts of them a file name. -/
theorem discover_exact (hsound : d.Sound) (h : d.find directory = .ok (base, .directory)) :
    ∃ found, d.run (discover directory) = (.ok found, d) ∧
      (∀ found', Discovers d directory base found' ↔ found' = found) ∧
      (∀ entries, entries.Perm (d.listing base) → inputs directory entries = found) ∧
      (found.map (·.schema)).Nodup ∧
      ∀ mode options (text : Input → String),
        (found.flatMap fun i => Artifact.fileNames mode options i.schema (text i)).Nodup := by
  have hnames : ((d.listing base).map (·.name)).Nodup := Disk.nodup_listing hsound.distinct base
  have hschemas : ((inputs directory (d.listing base)).map (·.schema)).Nodup := schemas_nodup hnames
  have hfound := discovers_inputs hsound directory base
  refine ⟨_, run_discover (Disk.list_of_find h), ?_, fun _ hperm => inputs_perm hnames hperm, hschemas, ?_⟩
  · intro found'
    constructor
    · exact fun h' => h'.ascending.eq_of_mem_iff hfound.ascending
        fun i => (h'.mem_iff i).trans (hfound.mem_iff i).symm
    · rintro rfl
      exact hfound
  · intro mode options text
    refine List.nodup_flatMap.mpr ⟨fun _ _ => Artifact.nodup_fileNames, ?_⟩
    refine (List.pairwise_map.mp hschemas).imp ?_
    intro i j hne f hi hj
    exact hne (Artifact.schema_eq_of_mem_fileNames hi hj)

/-- A directory with two documents, and with entries that are none: a name without a stem, another letter
case, a directory with a document in it, and a link. -/
def drawer : Disk where
  current := ["work"]
  entries := [(["work"], .directory), (["work", "docs"], .directory),
    (["work", "docs", "a.json"], .file plainDocument.toUTF8),
    (["work", "docs", "c.json"], .directory),
    (["work", "docs", "c.json", "b.json"], .file plainDocument.toUTF8),
    (["work", "docs", ".json"], .file plainDocument.toUTF8),
    (["work", "docs", "a-b.json"], .file plainDocument.toUTF8),
    (["work", "docs", "a.JSON"], .file plainDocument.toUTF8),
    (["work", "docs", "d.json"], .link "a.json")]

theorem drawer_sound : drawer.Sound where
  distinct := by decide
  rooted := by
    apply Disk.rooted_of_entries
    simp [drawer, Disk.entry?, List.lookup]
  named := by decide
  current := rfl

theorem drawer_find : drawer.find "docs" = .ok (["work", "docs"], .directory) := by
  have hdocs : drawer.DirectoryAt "docs" ["work", "docs"] :=
    Disk.directoryAt_of_plain (by decide) (by decide) rfl
  exact hdocs.find_eq (Disk.vet_eq_ok.mpr (by decide))

/-- The entries of the directory in the order of their names. -/
def drawerEntries : List DirectoryEntry :=
  [⟨".json", true⟩, ⟨"a-b.json", true⟩, ⟨"a.JSON", true⟩, ⟨"a.json", true⟩, ⟨"c.json", false⟩,
    ⟨"d.json", false⟩]

theorem drawer_inputs :
    inputs "docs" drawerEntries = [⟨"a-b", "docs/a-b.json"⟩, ⟨"a", "docs/a.json"⟩] := by
  have hordered : drawerEntries.Pairwise fun a b => Path.nameLE a.name b.name := by
    simp only [Path.nameLE_iff, Path.nameBytes_eq]
    decide
  rw [inputs, List.mergeSort_of_pairwise hordered]
  decide

theorem discover_exact_drawer : drawer.run (discover "docs") =
      (.ok [⟨"a-b", "docs/a-b.json"⟩, ⟨"a", "docs/a.json"⟩], drawer) ∧
    Discovers drawer "docs" ["work", "docs"] [⟨"a-b", "docs/a-b.json"⟩, ⟨"a", "docs/a.json"⟩] := by
  obtain ⟨found, hrun, hfound, hperm, -⟩ := discover_exact drawer_sound drawer_find
  obtain rfl := drawer_inputs.symm.trans (hperm drawerEntries (by decide))
  exact ⟨hrun, (hfound _).mpr rfl⟩

end Batch

end SchemaCompiler
