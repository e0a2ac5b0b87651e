import SchemaCompiler.Proofs.Batch.Run
import SchemaCompiler.Proofs.Descriptor.Emission

/-! # Runs that emit scripts

Scripts, temporary files, backups and documents all end differently, and the scripts of different
documents have different names. So a run leaves every script that it reports, and reads every document as
it was at the beginning, even in a directory that is both input and output. -/

namespace SchemaCompiler

namespace Batch

open Artifact

/-! ## Names -/

theorem slash_notMem_of_isSchemaName {name : String} (h : isSchemaName name) :
    '/' ∉ name.toList := by
  intro hslash
  simp only [isSchemaName, Bool.and_eq_true, List.all_eq_true] at h
  exact absurd (h.2 '/' hslash) (by decide)

section Names

variable {schema schema' f : String} {kind kind' : DatabaseKind}

theorem scriptName_injective (h : scriptName schema kind = scriptName schema' kind') :
    schema = schema' ∧ kind = kind' := by
  have hlist := congrArg String.toList h
  simp only [scriptName, String.toList_append] at hlist
  have hlength : kind.namespaceName.toList.length = kind'.namespaceName.toList.length := by
    cases kind <;> cases kind' <;> decide
  obtain ⟨hfront, hnamespace⟩ := List.append_inj' (List.append_cancel_right hlist) hlength
  exact ⟨String.toList_inj.mp (List.append_cancel_right hfront),
    Descriptor.namespaceName_injective (String.toList_inj.mp hnamespace)⟩

theorem getLast?_scriptName : (scriptName schema kind).toList.getLast? = some 'l' :=
  getLast?_append_extension (by decide)

theorem plain_scriptName (h : isSchemaName schema) : Path.Plain (scriptName schema kind) := by
  have hne : ∀ s : String, s.toList.getLast? ≠ some 'l' → scriptName schema kind ≠ s := by
    rintro s hs rfl
    exact hs getLast?_scriptName
  refine ⟨hne "" (by decide), hne "." (by decide), hne ".." (by decide), ?_⟩
  have hkind : '/' ∉ kind.namespaceName.toList := by cases kind <;> decide
  simp [scriptName, slash_notMem_of_isSchemaName h, hkind]

theorem getLast?_fileName (i : Input) : i.fileName.toList.getLast? = some 'n' :=
  getLast?_append_extension (by decide)

/-- A document is no file that the scripts take up. -/
theorem fileName_notMem_reserved (i : Input) : i.fileName ∉ reserved (scriptName schema kind) := by
  have hdocument := getLast?_fileName i
  simp only [reserved, List.mem_cons, List.not_mem_nil, or_false, not_or]
  exact ⟨ne_of_getLast?_ne hdocument getLast?_temporaryName (by decide),
    ne_of_getLast?_ne hdocument getLast?_scriptName (by decide),
    ne_of_getLast?_ne hdocument getLast?_backupName (by decide)⟩

end Names

section Runs

variable {d d' made : Disk} {options : EmissionOptions} {i : Input} {artifacts : List Artifact}
  {outcome : Report.Outcome} {input output timestamp : String} {base : Place}
  {entries : List DirectoryEntry} {found : List Input}

/-- Scripts are written to no document, so that it is read as it was. -/
theorem text_eq_of_alters {inputBase : Place} {fileNames : List String}
    (hfound : Found d input inputBase i) (hgrows : Disk.Grows d made)
    (halters : made.Alters d' base (fileNames.flatMap reserved))
    (hscripts : ∀ f ∈ fileNames, ∃ schema kind, f = scriptName schema kind) :
    d'.text i.path = d.text i.path := by
  apply hfound.text_eq ((hfound.inside.keep hgrows.keeps).keep halters.keeps)
  obtain ⟨contents, hfile⟩ := hfound.file
  rw [hfile, halters.elsewhere]
  · exact hgrows.kept _ _ hfile
  · intro name hname heq
    obtain ⟨f, hf, hname⟩ := List.mem_flatMap.mp hname
    obtain ⟨schema, kind, rfl⟩ := hscripts f hf
    have hsame : i.fileName = name := List.singleton_inj.mp (List.append_inj_right' heq rfl)
    exact fileName_notMem_reserved i (hsame ▸ hname)

variable [Json.RealReader]

/-- A text comes to one script for each of its databases, which are of different types. -/
theorem scriptNames_of_emit {schema text : String} (h : emit .sql options schema text = .ok artifacts) :
    ∃ kinds : List DatabaseKind, artifacts.map (·.fileName) = kinds.map (scriptName schema) ∧
      kinds.Nodup := by
  simp only [emit, scripts, bind_eq_ok, pure_eq_ok] at h
  obtain ⟨s, hcompile, rfl⟩ := h
  refine ⟨s.databases.map (·.kind), ?_, ?_⟩
  · simp [Ddl.scripts, Function.comp_def]
  · simp only [Schema.ofText, bind_eq_ok] at hcompile
    obtain ⟨document, -, hcompile⟩ := hcompile
    have hnames := Descriptor.nodup_namespaceNames (Document.compile_eq_ok.mp hcompile)
    exact List.Nodup.of_map DatabaseKind.namespaceName (by simpa [Function.comp_def] using hnames)

/-- The scripts of a document are named for it, with one type of database each. -/
theorem fileNames_of_judged (h : Judged .sql options d i artifacts outcome) :
    ∃ kinds : List DatabaseKind, artifacts.map (·.fileName) = kinds.map (scriptName i.schema) ∧
      kinds.Nodup ∧ (artifacts ≠ [] → isSchemaName i.schema) := by
  cases h with
  | skipped => exact ⟨[], by simp⟩
  | unreadable => exact ⟨[], by simp⟩
  | rejected => exact ⟨[], by simp⟩
  | compiled hname hread hemit =>
      obtain ⟨kinds, hkinds, hnodup⟩ := scriptNames_of_emit hemit
      exact ⟨kinds, hkinds, hnodup, fun _ => hname⟩

theorem scriptName_of_judged (h : Judged .sql options d i artifacts outcome) {f : String}
    (hf : f ∈ artifacts.map (·.fileName)) :
    isSchemaName i.schema ∧ ∃ kind, f = scriptName i.schema kind := by
  obtain ⟨kinds, hkinds, -, hvalid⟩ := fileNames_of_judged h
  have hne : artifacts ≠ [] := by
    rintro rfl
    cases hf
  rw [hkinds] at hf
  obtain ⟨kind, -, rfl⟩ := List.mem_map.mp hf
  exact ⟨hvalid hne, kind, rfl⟩

/-- The scripts of one run do not get in each other's way. -/
theorem separate_scripts {space : Input → List Artifact} {outcomes : Input → Report.Outcome}
    (hschemas : (found.map (·.schema)).Nodup)
    (hjudged : ∀ i, Judged .sql options d i (space i) (outcomes i)) :
    Separate (found.flatMap fun i => (space i).map (·.fileName)) := by
  constructor
  · intro f hf
    obtain ⟨i, -, hf⟩ := List.mem_flatMap.mp hf
    obtain ⟨hvalid, kind, rfl⟩ := scriptName_of_judged (hjudged i) hf
    exact plain_scriptName hvalid
  · refine List.nodup_flatMap.mpr ⟨?_, ?_⟩
    · intro i _
      obtain ⟨kinds, hkinds, hnodup, -⟩ := fileNames_of_judged (hjudged i)
      rw [hkinds]
      exact hnodup.map fun _ _ h => (scriptName_injective h).2
    · refine (List.pairwise_map.mp hschemas).imp ?_
      intro i j hne f hf hf'
      obtain ⟨-, kind, rfl⟩ := scriptName_of_judged (hjudged i) hf
      obtain ⟨-, kind', heq⟩ := scriptName_of_judged (hjudged j) hf'
      exact hne (scriptName_injective heq).1
  · intro f hf g hg
    obtain ⟨i, -, hf⟩ := List.mem_flatMap.mp hf
    obtain ⟨-, kind, rfl⟩ := scriptName_of_judged (hjudged i) hf
    exact ⟨ne_of_getLast?_ne getLast?_scriptName getLast?_temporaryName (by decide),
      ne_of_getLast?_ne getLast?_scriptName getLast?_backupName (by decide)⟩

/-! ## Runs -/

/-- What a run leaves, given the disk before it and the disk with its output directory: an entry for each
document, in order, that says what the document comes to on the disk before the run; every artifact of the
compiled documents; and all else as it was. -/
structure Completed (mode : Mode) (options : EmissionOptions) (d made final : Disk) (base : Place)
    (found : List Input) (files : List Report.Entry) : Prop where
  entries : List.Forall₂ (fun i e => e.schema = i.schema ∧
    ∃ artifacts, Judged mode options d i artifacts e.outcome ∧
      ∀ a ∈ artifacts, final.entry? (base ++ [a.fileName]) = some (.file a.contents.toUTF8)) found files
  others : ∀ p, (∀ i ∈ found, ∀ artifacts outcome, Judged mode options d i artifacts outcome →
      ∀ a ∈ artifacts, ∀ name ∈ reserved a.fileName, p ≠ base ++ [name]) →
    final.entry? p = made.entry? p

/-- A run that finds its documents and makes its output directory compiles every document on its own, as
long as no directory and no link is in the way of the scripts and of the files that they take up while
they are written. -/
theorem run_scripts_completed (hsound : d.Sound) (hlist : d.list input = .ok entries)
    (hmade : d.makeDirectories output = (.ok (), made))
    (hroom : ∀ i ∈ inputs input entries, ∀ artifacts outcome,
      Judged .sql options d i artifacts outcome →
        ∀ a ∈ artifacts, Unobstructed made output a.fileName) :
    (Disk.Grows d made ∧ (d.isDirectory output → made = d)) ∧
    ∃ base report final, made.DirectoryAt output base ∧
      d.run (run .sql options input output timestamp) = (.ok report, final) ∧
      Completed .sql options d made final base (inputs input entries) report.files := by
  obtain ⟨hprepared, base, hbase⟩ := hsound.makeDirectories_ok hmade
  choose artifacts outcomes hjudged using exists_judged .sql options d
  have hseparate := separate_scripts (schemas_nodup_of_list hsound hlist) hjudged
  have hready : Ready made output base
      ((inputs input entries).flatMap fun i => (artifacts i).map (·.fileName)) := by
    refine ⟨hprepared.rooted, hbase.directory, ?_⟩
    intro f hf
    have hplain := hseparate.plain f hf
    obtain ⟨i, hi, hf⟩ := List.mem_flatMap.mp hf
    obtain ⟨a, ha, rfl⟩ := List.mem_map.mp hf
    exact (hroom i hi _ _ (hjudged i) a ha).placed hplain hbase
  -- at its turn each document is read, and so judged, as at the beginning
  have hturn : ∀ i ∈ inputs input entries, ∀ d', made.Alters d' base
      (((inputs input entries).flatMap fun i => (artifacts i).map (·.fileName)).flatMap reserved) →
        d'.text i.path = d.text i.path := by
    intro i hi d' halters
    obtain ⟨inputBase, hfound⟩ := found_of_mem hsound hlist hi
    apply text_eq_of_alters hfound hprepared.grows halters
    intro f hf
    obtain ⟨j, -, hf⟩ := List.mem_flatMap.mp hf
    obtain ⟨-, kind, rfl⟩ := scriptName_of_judged (hjudged j) hf
    exact ⟨j.schema, kind, rfl⟩
  obtain ⟨files, final, hrun, halters, hsettled⟩ := compileInputs_succeeds
    (fun i => (artifacts i).map (·.fileName)) (inputs input entries)
    { timestamp := timestamp, mode := Mode.sql.token } hready hseparate (by
      intro i hi d' halters artifacts' outcome' hjudged'
      obtain ⟨rfl, -⟩ := (hjudged i).unique (hjudged'.congr (hturn i hi d' halters).symm)
      exact List.Sublist.refl _)
  refine ⟨⟨hprepared.grows, ?_⟩, base, _, final, hbase, run_eq hlist hmade hrun, ?_, ?_⟩
  · intro hthere
    have hsame := hmade.symm.trans (Disk.makeDirectories_of_isDirectory hthere)
    exact (Prod.mk.inj hsame).2
  · rw [addAll_files]
    refine ((List.forall₂_and_left _ _).mpr ⟨hturn, hsettled⟩).imp ?_
    rintro i e ⟨hread, hschema, d', artifacts', halters', hjudged', hwritten⟩
    exact ⟨hschema, artifacts', hjudged'.congr (hread d' halters').symm, hwritten⟩
  · intro p hp
    apply halters.elsewhere
    intro name hname
    obtain ⟨f, hf, hname⟩ := List.mem_flatMap.mp hname
    obtain ⟨i, hi, hf⟩ := List.mem_flatMap.mp hf
    obtain ⟨a, ha, rfl⟩ := List.mem_map.mp hf
    exact hp i hi _ _ (hjudged i) a ha name hname

end Runs

/-! ## A directory that is both input and output -/

/-- A document that declares a database without tables. -/
def plainDocument : String :=
  "[\x7b\"name\":\"app\",\"type\":\"fixed\"\x7d]"

/-- A document, and the script that an earlier run has left beside it. -/
def shelf : Disk where
  current := ["work"]
  entries := [(["work"], .directory), (["work", "docs"], .directory),
    (["work", "docs", "a.json"], .file plainDocument.toUTF8),
    (["work", "docs", "a.core.sql"], .file "old".toUTF8)]

theorem shelf_sound : shelf.Sound where
  distinct := by decide
  rooted := by
    apply Disk.rooted_of_entries
    simp [shelf, Disk.entry?, List.lookup]
  named := by decide
  current := rfl

theorem shelf_docs : shelf.DirectoryAt "docs" ["work", "docs"] :=
  Disk.directoryAt_of_plain (by decide) (by decide) rfl

theorem shelf_find : shelf.find "docs" = .ok (["work", "docs"], .directory) :=
  shelf_docs.find_eq (Disk.vet_eq_ok.mpr (by decide))

theorem shelf_list : shelf.list "docs" = .ok [⟨"a.json", true⟩, ⟨"a.core.sql", true⟩] :=
  Disk.list_of_find shelf_find

theorem shelf_makeDirectories : shelf.makeDirectories "docs" = (.ok (), shelf) := by
  apply Disk.makeDirectories_of_isDirectory
  rw [Disk.isDirectory, shelf_find]

theorem shelf_schema {i : Input}
    (h : i ∈ inputs "docs" [⟨"a.json", true⟩, ⟨"a.core.sql", true⟩]) : i.schema = "a" := by
  obtain ⟨e, he, hofEntry⟩ := mem_inputs.mp h
  obtain ⟨-, hname, -⟩ := ofEntry?_eq_some.mp hofEntry
  rcases List.mem_pair.mp he with rfl | rfl
  · have hlist := congrArg String.toList hname
    have hjson : "a.json".toList = "a".toList ++ ".json".toList := by decide
    rw [String.toList_append, hjson] at hlist
    exact (String.toList_inj.mp (List.append_cancel_right hlist)).symm
  · have hsql : "a.core.sql".toList.getLast? = some 'l' := by decide
    exact absurd hname (ne_of_getLast?_ne hsql (getLast?_fileName i) (by decide))

theorem run_scripts_completed_shelf : ∃ base report final, shelf.DirectoryAt "docs" base ∧
    shelf.run (run .sql {} "docs" "docs" "") = (.ok report, final) ∧
      Completed .sql {} shelf shelf final base
        (inputs "docs" [⟨"a.json", true⟩, ⟨"a.core.sql", true⟩]) report.files := by
  refine (run_scripts_completed shelf_sound shelf_list shelf_makeDirectories ?_).2
  intro i hi artifacts outcome hjudged a ha
  obtain ⟨-, kind, hname⟩ := scriptName_of_judged hjudged (List.mem_map_of_mem ha)
  rw [hname, shelf_schema hi]
  apply unobstructed_of_reserved shelf_docs
  · cases kind <;> decide
  · cases kind <;> decide
  · simp only [Disk.vet_eq_ok]
    cases kind <;> decide
  · simp only [Disk.loose_iff]
    cases kind <;> decide

/-! ## A link where a temporary file goes -/

/-- The script of the document. -/
def plainScript : Artifact where
  fileName := "a.core.sql"
  contents := "CREATE DATABASE `app` CHARACTER SET utf8mb4 COLLATE utf8mb4_unicode_ci;\nUSE `app`;\n"

/-- The document, and a link under the temporary name of its script. -/
def linked : Disk where
  current := ["work"]
  entries := [(["work"], .directory), (["work", "in"], .directory),
    (["work", "in", "a.json"], .file plainDocument.toUTF8),
    (["work", "out"], .directory), (["work", "out", "notes.txt"], .file "notes".toUTF8),
    (["work", "out", ".a.core.sql.tmp"], .link "notes.txt")]

theorem linked_sound : linked.Sound where
  distinct := by decide
  rooted := by
    apply Disk.rooted_of_entries
    simp [linked, Disk.entry?, List.lookup]
  named := by decide
  current := rfl

/-- The disk when the script was written through the link. -/
def overwritten : Disk :=
  linked.put ["work", "out", "notes.txt"] (.file plainScript.contents.toUTF8)

theorem linked_in : linked.DirectoryAt "in" ["work", "in"] :=
  Disk.directoryAt_of_plain (by decide) (by decide) rfl

theorem linked_out : linked.DirectoryAt "out" ["work", "out"] :=
  Disk.directoryAt_of_plain (by decide) (by decide) rfl

theorem overwritten_out : overwritten.DirectoryAt "out" ["work", "out"] :=
  Disk.directoryAt_of_plain (by decide) (by decide) rfl

theorem linked_write : linked.run (FileStore.write "out/.a.core.sql.tmp" plainScript.contents) =
    (.ok (), overwritten) := by
  have hresolve : linked.resolve true "out/.a.core.sql.tmp" = .ok ["work", "out", "notes.txt"] := by
    refine Disk.resolve_eq_ok.mpr ⟨Disk.vet_eq_ok.mpr (by decide), ?_⟩
    have hpath : Disk.steps "out/.a.core.sql.tmp" = ["out", ".a.core.sql.tmp"] := by decide
    have hlink : linked.entry? ["work", "out", ".a.core.sql.tmp"] = some (.link "notes.txt") := rfl
    rw [hpath]
    refine .inside (by decide) rfl (.link (by decide) hlink (.inr rfl) ?_)
    rw [Disk.steps_of_plain (by decide), if_neg (by decide)]
    exact .last (by decide) (.file rfl)
  have hwrite : linked.write "out/.a.core.sql.tmp" plainScript.contents.toUTF8 = .ok overwritten := by
    rw [Disk.write, hresolve]
    rfl
  change Disk.attempt (·.write "out/.a.core.sql.tmp" plainScript.contents.toUTF8) linked = _
  rw [Disk.attempt, hwrite]

theorem overwritten_rename :
    overwritten.run (FileStore.rename (Path.join "out" ".a.core.sql.tmp") (Path.join "out" "a.core.sql")) =
      (.ok (), overwritten.move ["work", "out", ".a.core.sql.tmp"] ["work", "out", "a.core.sql"]) := by
  have hsource : overwritten.resolve false (Path.join "out" ".a.core.sql.tmp") =
      .ok ["work", "out", ".a.core.sql.tmp"] :=
    overwritten_out.resolve_join false (by decide) (by decide) (Disk.vet_eq_ok.mpr (by decide)) fun _ _ => rfl
  have htarget : overwritten.resolve false (Path.join "out" "a.core.sql") =
      .ok ["work", "out", "a.core.sql"] :=
    overwritten_out.resolve_join false (by decide) (by decide) (Disk.vet_eq_ok.mpr (by decide)) fun _ _ => rfl
  have hrename : overwritten.rename (Path.join "out" ".a.core.sql.tmp") (Path.join "out" "a.core.sql") =
      .ok (overwritten.move ["work", "out", ".a.core.sql.tmp"] ["work", "out", "a.core.sql"]) := by
    rw [Disk.rename, hsource, htarget]
    rfl
  change Disk.attempt (·.rename (Path.join "out" ".a.core.sql.tmp") (Path.join "out" "a.core.sql"))
    overwritten = _
  rw [Disk.attempt, hrename]

theorem overwritten_isFile :
    overwritten.run (FileStore.isFile (Path.join "out" "a.core.sql")) = (false, overwritten) := by
  have htarget : overwritten.resolve true (Path.join "out" "a.core.sql") =
      .ok ["work", "out", "a.core.sql"] :=
    overwritten_out.resolve_join true (by decide) (by decide) (Disk.vet_eq_ok.mpr (by decide))
      fun _ hlink => by cases hlink
  have hfile : overwritten.isFile (Path.join "out" "a.core.sql") = false := by
    rw [Disk.isFile, Disk.find, htarget]
    rfl
  exact congrArg (·, overwritten) hfile

theorem linked_text :
    linked.text (Path.join "in" "a.json") = .ok plainDocument := by
  have hfile : linked.entry? (["work", "in"] ++ ["a.json"]) = some (.file plainDocument.toUTF8) := rfl
  have hread := linked_in.read_join (by decide) (by decide) hfile
  have hvet : Disk.vet (Path.join "in" "a.json") = .ok () := Disk.vet_eq_ok.mpr (by decide)
  have hutf8 : String.fromUTF8? plainDocument.toUTF8 = some plainDocument := by decide
  rw [hvet] at hread
  rw [Disk.text, hread]
  simp only [bind, Except.bind, hutf8]

theorem linked_list : linked.list "in" = .ok [⟨"a.json", true⟩] :=
  Disk.list_of_find (linked_in.find_eq (Disk.vet_eq_ok.mpr (by decide)))

theorem linked_inputs : inputs "in" [⟨"a.json", true⟩] = [⟨"a", Path.join "in" "a.json"⟩] := by
  have hofEntry : Input.ofEntry? "in" ⟨"a.json", true⟩ = some ⟨"a", Path.join "in" "a.json"⟩ :=
    ofEntry?_eq_some.mpr ⟨rfl, by decide, by decide, rfl⟩
  rw [inputs, List.mergeSort_singleton, List.filterMap_cons_some hofEntry, List.filterMap_nil]

/-- The disk when the link was moved to where the script belongs. -/
def replaced : Disk :=
  overwritten.move ["work", "out", ".a.core.sql.tmp"] ["work", "out", "a.core.sql"]

theorem linked_writeAll :
    linked.run (writeAll "out" [plainScript]) = (.ok [plainScript.digest], replaced) := by
  have hstage : linked.run (stage "out" [] [plainScript]) =
      (.ok [plainScript.staging "out"], overwritten) := by
    rw [stage]
    exact (Disk.run_bind linked_write _).trans rfl
  have hbackUp : overwritten.run (backUp "out/a.core.sql") = (.ok none, overwritten) := by
    rw [backUp]
    exact (Disk.run_bind overwritten_isFile _).trans rfl
  have hreplace : overwritten.run (replace (plainScript.staging "out")) =
      (.ok ⟨"out/a.core.sql", none⟩, replaced) := by
    rw [replace]
    refine (Disk.run_bind hbackUp _).trans ?_
    exact (Disk.run_bind overwritten_rename _).trans rfl
  have hcommit : overwritten.run (commit [] [plainScript.staging "out"]) =
      (.ok [⟨"out/a.core.sql", none⟩], replaced) := by
    rw [commit]
    exact (Disk.run_bind hreplace _).trans rfl
  rw [writeAll]
  refine (Disk.run_bind hstage _).trans ?_
  exact (Disk.run_bind hcommit _).trans rfl

/-- A run writes through the link: it reports the script, and overwrites a file that is neither the script
nor a file that the script takes up while it is written. -/
theorem run_scripts_linked : linked.Sound ∧ linked.makeDirectories "out" = (.ok (), linked) ∧
    (∀ name ∈ reserved plainScript.fileName,
      linked.entry? (["work", "out"] ++ [name]) ≠ some .directory) ∧
    "notes.txt" ∉ reserved plainScript.fileName ∧
    ∃ report final, linked.run (run .sql {} "in" "out" "") = (.ok report, final) ∧
      report.files = [⟨"a", .compiled [plainScript.digest]⟩] ∧
      final.entry? ["work", "out", "notes.txt"] ≠ linked.entry? ["work", "out", "notes.txt"] := by
  have hmade : linked.makeDirectories "out" = (.ok (), linked) := by
    have hfind : linked.find "out" = .ok (["work", "out"], .directory) :=
      linked_out.find_eq (Disk.vet_eq_ok.mpr (by decide))
    apply Disk.makeDirectories_of_isDirectory
    rw [Disk.isDirectory, hfind]
  have hemit : emit .sql {} "a" plainDocument = .ok [plainScript] :=
    eq_ok_of_toOption (by decide +kernel)
  have hcompile : linked.run (compileInput .sql {} "out" ⟨"a", Path.join "in" "a.json"⟩) =
      (.compiled [plainScript.digest], replaced) := by
    rw [run_compileInput (by decide), linked_text]
    simp only [compileInto, hemit]
    exact Disk.run_bind linked_writeAll _
  have hrun : linked.run (compileInputs .sql {} "out" { timestamp := "", mode := Mode.sql.token }
      (inputs "in" [⟨"a.json", true⟩])) =
        (addAll { timestamp := "", mode := Mode.sql.token } [⟨"a", .compiled [plainScript.digest]⟩],
          replaced) := by
    rw [linked_inputs, compileInputs]
    exact (Disk.run_bind hcompile _).trans rfl
  refine ⟨linked_sound, hmade, ?_, by decide, _, _, run_eq linked_list hmade hrun, ?_, ?_⟩
  · have hnames : reserved plainScript.fileName =
        [".a.core.sql.tmp", "a.core.sql", ".a.core.sql.bak"] := by decide
    intro name hname
    rw [hnames] at hname
    simp only [List.mem_cons, List.not_mem_nil, or_false] at hname
    intro hdirectory
    rcases hname with rfl | rfl | rfl <;> cases hdirectory
  · exact addAll_files _ _
  · intro hsame
    have hcontents : Disk.Entry.file plainScript.contents.toUTF8 = .file "notes".toUTF8 :=
      Option.some.inj hsame
    exact absurd (congrArg ByteArray.size (Disk.Entry.file.inj hcontents)) (by decide)

end Batch

end SchemaCompiler
