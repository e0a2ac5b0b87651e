import SchemaCompiler.Proofs.Batch.Scripts

/-! # Runs that emit descriptor modules

A module is named for its document, with an extension of choice. With some extensions the module of one
document has the name that the module of another one takes up while it is written, and is lost. Where no
names of documents meet in this way, a run leaves every module that it reports. -/

namespace SchemaCompiler

namespace Batch

open Artifact

/-! ## Names -/

section Names

variable {schema schema' extension ending : String}

theorem toList_moduleName (schema extension : String) :
    (moduleName schema extension).toList = schema.toList ++ '.' :: extension.toList := by
  simp [moduleName]

theorem moduleName_injective (h : moduleName schema extension = moduleName schema' extension) :
    schema = schema' := by
  have hlist := congrArg String.toList h
  rw [toList_moduleName, toList_moduleName] at hlist
  exact String.toList_inj.mp (List.append_cancel_right hlist)

/-- With the extension of temporary files, every temporary file has the name of a module. -/
theorem temporaryName_moduleName_tmp (schema : String) :
    temporaryName (moduleName schema "tmp") = moduleName ("." ++ schema ++ ".tmp") "tmp" := by
  rw [← String.toList_inj]
  simp [temporaryName, moduleName]

/-- A module has the name of another one with a dot in front and an ending behind only if the ending
leaves the extension last. -/
theorem suffix_of_moduleName_eq
    (h : moduleName schema extension = "." ++ moduleName schema' extension ++ ending) :
    '.' :: extension.toList <:+ '.' :: extension.toList ++ ending.toList := by
  have hmodule : '.' :: extension.toList <:+ (moduleName schema extension).toList :=
    ⟨schema.toList, (toList_moduleName schema extension).symm⟩
  have hhidden : '.' :: extension.toList ++ ending.toList <:+ (moduleName schema extension).toList := by
    refine ⟨'.' :: schema'.toList, ?_⟩
    rw [h]
    simp [moduleName]
  exact List.suffix_of_suffix_length_le hmodule hhidden (by simp)

/-- A module has a plain name if there is room for it. -/
theorem plain_moduleName {made : Disk} {output : String} {base : Place} (hrooted : made.Rooted)
    (hbase : made.DirectoryAt output base) (hschema : isSchemaName schema)
    (hslash : '/' ∉ extension.toList)
    (hroom : Unobstructed made output (moduleName schema extension)) :
    Path.Plain (moduleName schema extension) := by
  have hne : schema.toList ≠ [] := by
    intro hnil
    rw [String.toList_eq_nil_iff.mp hnil] at hschema
    exact absurd hschema (by decide)
  constructor
  · intro hempty
    have hlist := congrArg String.toList hempty
    rw [toList_moduleName] at hlist
    simp at hlist
  · intro hdot
    have hlist := congrArg List.length (congrArg String.toList hdot)
    rw [toList_moduleName] at hlist
    have hlength := List.length_pos_iff.mpr hne
    simp at hlist
    omega
  · intro hdots
    exact hbase.not_available_dots hrooted (hdots ▸ hroom.target)
  · rw [toList_moduleName]
    simp [slash_notMem_of_isSchemaName hschema, hslash]

end Names

/-! ## Runs -/

/-- No document has a module with the name of the temporary file or the backup of another one. -/
def Undisturbed (extension : String) (found : List Input) : Prop :=
  ∀ i ∈ found, ∀ j ∈ found, i.hasValidName → j.hasValidName →
    moduleName i.schema extension ≠ temporaryName (moduleName j.schema extension) ∧
      moduleName i.schema extension ≠ backupName (moduleName j.schema extension)

/-- An extension that neither ending leaves last, such as the default, keeps all documents apart. -/
theorem undisturbed_of_not_suffix {extension : String}
    (htemporary : ¬('.' :: extension.toList <:+ '.' :: extension.toList ++ ".tmp".toList))
    (hbackup : ¬('.' :: extension.toList <:+ '.' :: extension.toList ++ ".bak".toList))
    (found : List Input) : Undisturbed extension found := by
  intro i _ j _ _ _
  exact ⟨fun h => htemporary (suffix_of_moduleName_eq h), fun h => hbackup (suffix_of_moduleName_eq h)⟩

/-- With the extension of temporary files there are documents that are not kept apart. -/
theorem not_undisturbed_tmp {found : List Input} {i j : Input} (hi : i ∈ found) (hj : j ∈ found)
    (hvalid : i.hasValidName) (hvalid' : j.hasValidName) (h : i.schema = "." ++ j.schema ++ ".tmp") :
    ¬Undisturbed "tmp" found := by
  intro hundisturbed
  apply (hundisturbed i hi j hj hvalid hvalid').1
  rw [temporaryName_moduleName_tmp, h]

/-- The names that the module of a document may take: its own, if it is valid. -/
def moduleNames (extension : String) (i : Input) : List String :=
  if i.hasValidName then [moduleName i.schema extension] else []

section Runs

variable {d d' made : Disk} {options : EmissionOptions} {i : Input} {artifacts : List Artifact}
  {outcome : Report.Outcome} {input output timestamp extension f : String} {base : Place}
  {entries : List DirectoryEntry} {found : List Input}

theorem mem_moduleNames :
    f ∈ moduleNames extension i ↔ i.hasValidName ∧ f = moduleName i.schema extension := by
  rw [moduleNames, List.mem_ite_nil_right, List.mem_singleton]

theorem mem_flatMap_moduleNames : f ∈ found.flatMap (moduleNames extension) ↔
    ∃ i ∈ found, i.hasValidName ∧ f = moduleName i.schema extension := by
  simp only [List.mem_flatMap, mem_moduleNames]

/-- The modules of undisturbed documents do not get in each other's way. -/
theorem Undisturbed.separate (h : Undisturbed extension found)
    (hschemas : (found.map (·.schema)).Nodup)
    (hplain : ∀ i ∈ found, i.hasValidName → Path.Plain (moduleName i.schema extension)) :
    Separate (found.flatMap (moduleNames extension)) := by
  constructor
  · intro f hf
    obtain ⟨i, hi, hvalid, rfl⟩ := mem_flatMap_moduleNames.mp hf
    exact hplain i hi hvalid
  · refine List.nodup_flatMap.mpr ⟨?_, ?_⟩
    · intro i _
      unfold moduleNames
      split
      · exact List.nodup_singleton _
      · exact List.nodup_nil
    · refine (List.pairwise_map.mp hschemas).imp ?_
      intro i j hne f hf hf'
      obtain ⟨-, hi⟩ := mem_moduleNames.mp hf
      obtain ⟨-, hj⟩ := mem_moduleNames.mp hf'
      exact hne (moduleName_injective (hi.symm.trans hj))
  · intro f hf g hg
    obtain ⟨i, hi, hvalid, rfl⟩ := mem_flatMap_moduleNames.mp hf
    obtain ⟨j, hj, hvalid', rfl⟩ := mem_flatMap_moduleNames.mp hg
    exact h i hi j hj hvalid hvalid'

variable [Json.RealReader]

/-- A text comes to one module. -/
theorem fileNames_of_emit {schema text : String} (h : emit .descriptor options schema text = .ok artifacts) :
    artifacts.map (·.fileName) = [moduleName schema options.descriptor.extension] := by
  simp only [emit, modules, bind_eq_ok, pure_eq_ok] at h
  obtain ⟨s, -, descriptor, -, rfl⟩ := h
  rfl

/-- A document comes to its module at most. -/
theorem moduleNames_of_judged (h : Judged .descriptor options d i artifacts outcome) :
    (artifacts.map (·.fileName)).Sublist (moduleNames options.descriptor.extension i) := by
  cases h with
  | skipped => exact List.nil_sublist _
  | unreadable => exact List.nil_sublist _
  | rejected => exact List.nil_sublist _
  | compiled hname hread hemit =>
      have hvalid : i.hasValidName := hname
      rw [fileNames_of_emit hemit, moduleNames, if_pos hvalid]

theorem fileNames_of_compiled {digests : List ArtifactDigest}
    (h : Judged .descriptor options d i artifacts (.compiled digests)) :
    artifacts.map (·.fileName) = [moduleName i.schema options.descriptor.extension] ∧
      digests.map (·.file) = artifacts.map (·.fileName) := by
  cases h with
  | compiled hname hread hemit => exact ⟨fileNames_of_emit hemit, List.map_map⟩

/-- A document whose module has the name of another one's temporary file is compiled like any other, but
its module is lost when the other one is compiled after it. -/
theorem compileInputs_loses {j : Input} {report : Report} {artifacts' : List Artifact}
    {digests digests' : List ArtifactDigest}
    (hplain : Path.Plain (moduleName j.schema options.descriptor.extension))
    (hname : moduleName i.schema options.descriptor.extension =
      temporaryName (moduleName j.schema options.descriptor.extension))
    (hready : Ready d output base [moduleName i.schema options.descriptor.extension,
      moduleName j.schema options.descriptor.extension])
    (hi : Judged .descriptor options d i artifacts (.compiled digests))
    (hj : ∀ d', d.Alters d' base (reserved (moduleName i.schema options.descriptor.extension)) →
      Judged .descriptor options d' j artifacts' (.compiled digests')) :
    ∃ final, d.run (compileInputs .descriptor options output report [i, j]) =
        (addAll report [⟨i.schema, .compiled digests⟩, ⟨j.schema, .compiled digests'⟩], final) ∧
      ∀ g ∈ digests, final.entry? (base ++ [g.file]) = none := by
  obtain ⟨hfiles, hdigests⟩ := fileNames_of_compiled hi
  obtain ⟨d₁, hrun₁, halters₁, -⟩ := compileInput_succeeds hi (hready.mono (by simp [hfiles]))
    (hfiles ▸ .singleton (hname ▸ plain_temporaryName hplain))
  have hj₁ := hj d₁ (by simpa [hfiles] using halters₁)
  obtain ⟨hfiles', -⟩ := fileNames_of_compiled hj₁
  obtain ⟨final, hrun, -, hentries⟩ := compileInput_succeeds hj₁
    ((hready.alters halters₁).mono (by simp [hfiles'])) (hfiles' ▸ .singleton hplain)
  refine ⟨final, ?_, ?_⟩
  · rw [compileInputs]
    refine (Disk.run_bind hrun₁ _).trans ?_
    rw [compileInputs]
    exact (Disk.run_bind hrun _).trans rfl
  · intro g hg
    have hfile : g.file = moduleName i.schema options.descriptor.extension := by
      have hmem : g.file ∈ digests.map (·.file) := List.mem_map_of_mem hg
      rw [hdigests, hfiles] at hmem
      exact List.mem_singleton.mp hmem
    obtain ⟨b, rfl, hb⟩ := List.map_eq_singleton_iff.mp hfiles'
    rw [hfile, hname, ← hb]
    exact (hentries b List.mem_cons_self).1

/-- What is reported of a document whose artifacts are there describes these. -/
theorem Settled.digests_describe {mode : Mode} {final : Disk} {fileNames : List String}
    {e : Report.Entry} {digests : List ArtifactDigest} {g : ArtifactDigest}
    (h : Settled mode options d final base fileNames i e) (houtcome : e.outcome = .compiled digests)
    (hg : g ∈ digests) : ∃ contents, final.entry? (base ++ [g.file]) = some (.file contents) ∧
      g.sha256 = Sha256.hex contents.toList ∧ g.bytes = contents.size := by
  obtain ⟨d', artifacts, -, hjudged, hentries⟩ := h.judged
  rw [houtcome] at hjudged
  cases hjudged with
  | compiled _ _ _ =>
      obtain ⟨a, ha, rfl⟩ := List.mem_map.mp hg
      exact ⟨a.contents.toUTF8, hentries a ha, rfl, rfl⟩

/-- A run that finds its documents and makes its output directory judges every document by what those
before it have left, and leaves every module that it reports, with the contents that the report describes,
as long as the documents are undisturbed and no directory and no link is in the way of the modules and of
the files that they take up while they are written. -/
theorem run_modules_kept (hsound : d.Sound) (hlist : d.list input = .ok entries)
    (hmade : d.makeDirectories output = (.ok (), made))
    (hslash : '/' ∉ options.descriptor.extension.toList)
    (hundisturbed : Undisturbed options.descriptor.extension (inputs input entries))
    (hroom : ∀ i ∈ inputs input entries, i.hasValidName →
      Unobstructed made output (moduleName i.schema options.descriptor.extension)) :
    ∃ base report final, made.DirectoryAt output base ∧
      d.run (run .descriptor options input output timestamp) = (.ok report, final) ∧
      List.Forall₂ (Settled .descriptor options made final base
        ((inputs input entries).flatMap (moduleNames options.descriptor.extension)))
        (inputs input entries) report.files ∧
      ∀ e ∈ report.files, ∀ digests, e.outcome = .compiled digests → ∀ g ∈ digests,
        ∃ contents, final.entry? (base ++ [g.file]) = some (.file contents) ∧
          g.sha256 = Sha256.hex contents.toList ∧ g.bytes = contents.size := by
  obtain ⟨hprepared, base, hbase⟩ := hsound.makeDirectories_ok hmade
  have hplain : ∀ i ∈ inputs input entries, i.hasValidName →
      Path.Plain (moduleName i.schema options.descriptor.extension) := fun i hi hvalid =>
    plain_moduleName hprepared.rooted hbase hvalid hslash (hroom i hi hvalid)
  have hready : Ready made output base
      ((inputs input entries).flatMap (moduleNames options.descriptor.extension)) := by
    refine ⟨hprepared.rooted, hbase.directory, ?_⟩
    intro f hf
    obtain ⟨i, hi, hvalid, rfl⟩ := mem_flatMap_moduleNames.mp hf
    exact (hroom i hi hvalid).placed (hplain i hi hvalid) hbase
  obtain ⟨files, final, hrun, -, hsettled⟩ := compileInputs_succeeds
    (moduleNames options.descriptor.extension) (inputs input entries)
    { timestamp := timestamp, mode := Mode.descriptor.token } hready
    (hundisturbed.separate (schemas_nodup_of_list hsound hlist) hplain)
    (fun i _ d' _ artifacts outcome hjudged => moduleNames_of_judged hjudged)
  refine ⟨base, _, final, hbase, run_eq hlist hmade hrun, ?_, ?_⟩
  · rw [addAll_files]
    exact hsettled
  · rw [addAll_files]
    intro e he digests houtcome g hg
    obtain ⟨i, -, hentry⟩ := exists_of_mem_right hsettled he
    exact hentry.digests_describe houtcome hg

end Runs

theorem run_modules_kept_shelf : ∃ base report final, shelf.DirectoryAt "docs" base ∧
    shelf.run (run .descriptor {} "docs" "docs" "") = (.ok report, final) ∧
    List.Forall₂ (Settled .descriptor {} shelf final base
      ((inputs "docs" [⟨"a.json", true⟩, ⟨"a.core.sql", true⟩]).flatMap (moduleNames "js")))
      (inputs "docs" [⟨"a.json", true⟩, ⟨"a.core.sql", true⟩]) report.files ∧
    ∀ e ∈ report.files, ∀ digests, e.outcome = .compiled digests → ∀ g ∈ digests,
      ∃ contents, final.entry? (base ++ [g.file]) = some (.file contents) ∧
        g.sha256 = Sha256.hex contents.toList ∧ g.bytes = contents.size := by
  refine run_modules_kept shelf_sound shelf_list shelf_makeDirectories (by decide)
    (undisturbed_of_not_suffix (by decide) (by decide) _) ?_
  intro i hi _
  rw [shelf_schema hi]
  apply unobstructed_of_reserved shelf_docs
  · decide
  · decide
  · simp only [Disk.vet_eq_ok]
    decide
  · simp only [Disk.loose_iff]
    decide

end Batch

end SchemaCompiler
