import SchemaCompiler.Batch.Run
import SchemaCompiler.Proofs.Artifact.Installation
import SchemaCompiler.Proofs.Batch.Discovery

/-! # Runs on a disk

One document is judged by the disk at its turn, and leaves its artifacts there. As long as the files of
different documents have names that do not get in each other's way, they are all there in the end. -/

namespace SchemaCompiler

namespace Batch

open Artifact

/-- What a document on a disk comes to: the artifacts that are to be written, and the outcome. -/
inductive Judged [Json.RealReader] (mode : Mode) (options : EmissionOptions) (d : Disk)
    (i : Input) : List Artifact → Report.Outcome → Prop where
  | skipped (hname : ¬isSchemaName i.schema) :
      Judged mode options d i [] (.skipped ("'" ++ i.schema ++ "' is not a valid schema name"))
  | unreadable {e} (hname : isSchemaName i.schema) (hread : d.text i.path = .error e) :
      Judged mode options d i [] (.ofMessage (PathError.mk i.path e).message)
  | rejected {text f} (hname : isSchemaName i.schema) (hread : d.text i.path = .ok text)
      (hemit : emit mode options i.schema text = .error f) :
      Judged mode options d i [] (.ofDiagnostic f.diagnostic)
  | compiled {text artifacts} (hname : isSchemaName i.schema) (hread : d.text i.path = .ok text)
      (hemit : emit mode options i.schema text = .ok artifacts) :
      Judged mode options d i artifacts (.compiled (artifacts.map digest))

section Steps

variable [Json.RealReader] {mode : Mode} {options : EmissionOptions} {d d' : Disk} {i : Input} {output : String}
  {base : Place} {artifacts artifacts' : List Artifact} {outcome outcome' : Report.Outcome}

theorem exists_judged (mode : Mode) (options : EmissionOptions) (d : Disk) (i : Input) :
    ∃ artifacts outcome, Judged mode options d i artifacts outcome := by
  by_cases hname : isSchemaName i.schema
  · cases hread : d.text i.path with
    | error e => exact ⟨_, _, .unreadable hname hread⟩
    | ok text =>
        cases hemit : emit mode options i.schema text with
        | error f => exact ⟨_, _, .rejected hname hread hemit⟩
        | ok artifacts => exact ⟨_, _, .compiled hname hread hemit⟩
  · exact ⟨_, _, .skipped hname⟩

theorem Judged.unique (h : Judged mode options d i artifacts outcome)
    (h' : Judged mode options d i artifacts' outcome') : artifacts = artifacts' ∧ outcome = outcome' := by
  cases h <;> cases h' <;> simp_all

/-- A document that is read as before is judged as before. -/
theorem Judged.congr (h : Judged mode options d i artifacts outcome)
    (htext : d'.text i.path = d.text i.path) : Judged mode options d' i artifacts outcome := by
  cases h with
  | skipped hname => exact .skipped hname
  | unreadable hname hread => exact .unreadable hname (htext.trans hread)
  | rejected hname hread hemit => exact .rejected hname (htext.trans hread) hemit
  | compiled hname hread hemit => exact .compiled hname (htext.trans hread) hemit

theorem run_compileInput (hname : isSchemaName i.schema) :
    d.run (compileInput mode options output i) = match d.text i.path with
      | .error e => (.ofMessage (PathError.mk i.path e).message, d)
      | .ok text => d.run (compileInto mode options output i.schema text) := by
  simp only [compileInput, Input.hasValidName, hname, Bool.not_true, Bool.false_eq_true, if_false]
  refine (Disk.run_bind (Disk.run_readText i.path) _).trans ?_
  cases d.text i.path <;> rfl

/-- One document is judged, and its artifacts are written. -/
theorem compileInput_succeeds (h : Judged mode options d i artifacts outcome)
    (hready : Ready d output base (artifacts.map (·.fileName)))
    (hseparate : Separate (artifacts.map (·.fileName))) :
    ∃ d', d.run (compileInput mode options output i) = (outcome, d') ∧
      d.Alters d' base ((artifacts.map (·.fileName)).flatMap reserved) ∧
      ∀ a ∈ artifacts, d'.entry? (base ++ [temporaryName a.fileName]) = none ∧
        d'.entry? (base ++ [a.fileName]) = some (.file a.contents.toUTF8) := by
  cases h with
  | skipped hname =>
      refine ⟨d, ?_, .refl, by simp⟩
      simp [compileInput, Input.hasValidName, hname]
  | unreadable hname hread =>
      refine ⟨d, ?_, .refl, by simp⟩
      rw [run_compileInput hname, hread]
  | rejected hname hread hemit =>
      refine ⟨d, ?_, .refl, by simp⟩
      rw [run_compileInput hname, hread]
      simp [compileInto, hemit]
  | compiled hname hread hemit =>
      obtain ⟨d', hwrite, halters, hentries⟩ := writeAll_succeeds hready hseparate
      refine ⟨d', ?_, halters, hentries⟩
      rw [run_compileInput hname, hread]
      simp only [compileInto, hemit]
      exact Disk.run_bind hwrite _

end Steps

/-! ## Several documents -/

/-- A document was judged at its turn, and its artifacts are there at the end. -/
structure Settled [Json.RealReader] (mode : Mode) (options : EmissionOptions) (d final : Disk)
    (base : Place) (fileNames : List String) (i : Input) (e : Report.Entry) : Prop where
  schema : e.schema = i.schema
  judged : ∃ d' artifacts, d.Alters d' base (fileNames.flatMap reserved) ∧
    Judged mode options d' i artifacts e.outcome ∧
    ∀ a ∈ artifacts, final.entry? (base ++ [a.fileName]) = some (.file a.contents.toUTF8)

/-- The report with further entries. -/
def addAll (report : Report) (entries : List Report.Entry) : Report :=
  entries.foldl (fun r e => r.add e.schema e.outcome) report

theorem addAll_files (report : Report) (entries : List Report.Entry) :
    (addAll report entries).files = report.files ++ entries := by
  induction entries generalizing report with
  | nil => simp [addAll]
  | cons e entries ih =>
      change (addAll (report.add e.schema e.outcome) entries).files = _
      rw [ih]
      simp [Report.add]

section Runs

variable [Json.RealReader] {mode : Mode} {options : EmissionOptions} {d d₁ final : Disk} {output : String} {base : Place}
  {fileNames fileNames' : List String} {i : Input} {e : Report.Entry}

theorem Settled.after (h : Settled mode options d₁ final base fileNames i e)
    (halters : d.Alters d₁ base (fileNames'.flatMap reserved)) (hsub : fileNames ⊆ fileNames') :
    Settled mode options d final base fileNames' i e where
  schema := h.schema
  judged := by
    obtain ⟨d', artifacts, halters', hjudged, hentries⟩ := h.judged
    exact ⟨d', artifacts, halters.trans (halters'.mono (flatMap_reserved_subset hsub)), hjudged,
      hentries⟩

/-- Documents are judged in order, each of them by what those before it have left. -/
theorem compileInputs_succeeds (space : Input → List String) (found : List Input) (report : Report)
    (hready : Ready d output base (found.flatMap space)) (hseparate : Separate (found.flatMap space))
    (hspace : ∀ i ∈ found, ∀ d', d.Alters d' base ((found.flatMap space).flatMap reserved) →
      ∀ artifacts outcome, Judged mode options d' i artifacts outcome →
        (artifacts.map (·.fileName)).Sublist (space i)) :
    ∃ entries final, d.run (compileInputs mode options output report found) =
        (addAll report entries, final) ∧
      d.Alters final base ((found.flatMap space).flatMap reserved) ∧
      List.Forall₂ (Settled mode options d final base (found.flatMap space)) found entries := by
  induction found generalizing d report with
  | nil => exact ⟨[], d, rfl, .refl, .nil⟩
  | cons i found ih =>
      obtain ⟨artifacts, outcome, hjudged⟩ := exists_judged mode options d i
      have hsub := hspace i List.mem_cons_self d .refl artifacts outcome hjudged
      have hown : (artifacts.map (·.fileName)).Sublist ((i :: found).flatMap space) :=
        hsub.trans (List.sublist_append_left _ _)
      have hrest : (found.flatMap space).Sublist ((i :: found).flatMap space) :=
        List.sublist_append_right _ _
      obtain ⟨d₁, hcompile, halters₁, hentries₁⟩ := compileInput_succeeds hjudged
        (hready.mono hown.subset) (hseparate.sublist hown)
      have halters : d.Alters d₁ base (((i :: found).flatMap space).flatMap reserved) :=
        halters₁.mono (flatMap_reserved_subset hown.subset)
      obtain ⟨entries, final, hrun, hfinal, hsettled⟩ := ih (report.add i.schema outcome)
        ((hready.alters halters₁).mono hrest.subset) (hseparate.sublist hrest) (by
          intro j hj d' halters'
          exact hspace j (List.mem_cons_of_mem i hj) d'
            (halters.trans (halters'.mono (flatMap_reserved_subset hrest.subset))))
      refine ⟨⟨i.schema, outcome⟩ :: entries, final, ?_, ?_, .cons ⟨rfl, ?_⟩ ?_⟩
      · rw [compileInputs]
        exact (Disk.run_bind hcompile _).trans hrun
      · exact halters.trans (hfinal.mono (flatMap_reserved_subset hrest.subset))
      · refine ⟨d, artifacts, .refl, hjudged, ?_⟩
        intro a ha
        rw [hfinal.entry?_of_notMem, (hentries₁ a ha).2]
        intro hmem
        obtain ⟨g, hg, hname⟩ := List.mem_flatMap.mp hmem
        have hfile : a.fileName ∈ space i := hsub.subset (List.mem_map_of_mem ha)
        -- the files of the others have other names
        have hne : a.fileName ≠ g := by
          rintro rfl
          exact (List.nodup_append.mp hseparate.distinct).2.2 _ hfile _ hg rfl
        exact hseparate.disjoint (List.mem_append_left _ hfile) (List.mem_append_right _ hg) hne
          (by simp [reserved]) hname
      · exact hsettled.imp fun j e h => h.after halters hrest.subset

/-- A run that can list its input and make its output directory compiles what it finds. -/
theorem run_eq {made : Disk} {input timestamp : String} {entries : List DirectoryEntry}
    {report : Report} (hlist : d.list input = .ok entries)
    (hmade : d.makeDirectories output = (.ok (), made))
    (hrun : made.run (compileInputs mode options output
      { timestamp := timestamp, mode := mode.token } (inputs input entries)) = (report, final)) :
    d.run (run mode options input output timestamp) = (.ok report, final) := by
  have hmake : d.run (FileSystem.makeDirectories output) = (.ok (), made) := hmade
  rw [run]
  refine (Disk.run_bind (run_discover hlist) _).trans ?_
  refine (Disk.run_bind hmake _).trans ?_
  exact Disk.run_bind hrun _

end Runs

end Batch

end SchemaCompiler
