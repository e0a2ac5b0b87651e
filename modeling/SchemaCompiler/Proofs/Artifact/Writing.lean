import SchemaCompiler.Proofs.Artifact.Steps

/-! # All or nothing

On a volume where any write and any move may fail, writing artifacts either puts all of them in place or
leaves the volume as it was. -/

namespace SchemaCompiler

namespace Artifact

open Volume (Entries)

variable {current : Place}

/-! ## Runs -/

section Runs

variable (v : Volume current)

theorem run_stage_cons (directory : String) (staged : List Staged) (a : Artifact)
    (rest : List Artifact) : v.run (stage directory staged (a :: rest)) =
      match v.write (a.staging directory).temporary a.contents with
      | (.error e, w) => (.error ⟨(a.staging directory).temporary, e⟩,
          (w.run (discard staged)).2.remove (a.staging directory).temporary)
      | (.ok (), w) => w.run (stage directory (staged ++ [a.staging directory]) rest) := by
  rw [stage, Volume.run_bind, Volume.run_write]
  rcases v.write (a.staging directory).temporary a.contents with ⟨_ | _, w⟩ <;> rfl

theorem run_commit_cons (committed : List Committed) (s : Staged) (rest : List Staged) :
    v.run (commit committed (s :: rest)) =
      match v.run (replace s) with
      | (.error e, w) => (.error ⟨s.target, e⟩,
          ((w.run (undo committed.reverse)).2.run (discard (s :: rest))).2)
      | (.ok c, w) => w.run (commit (committed ++ [c]) rest) := by
  rw [commit, Volume.run_bind]
  rcases v.run (replace s) with ⟨_ | _, w⟩ <;> rfl

theorem run_writeAll (directory : String) (artifacts : List Artifact) :
    v.run (writeAll directory artifacts) =
      match v.run (stage directory [] artifacts) with
      | (.error e, w) => (.error e, w)
      | (.ok staged, w) =>
        match w.run (commit [] staged) with
        | (.error e, w) => (.error e, w)
        | (.ok committed, w) =>
          (.ok (artifacts.map Artifact.digest), (w.run (removeBackups committed)).2) := by
  rw [writeAll, Volume.run_bind]
  rcases v.run (stage directory [] artifacts) with ⟨_ | staged, w⟩
  · rfl
  · simp only [Volume.run_bind]
    rcases w.run (commit [] staged) with ⟨_ | committed, w⟩ <;> rfl

end Runs

section Writing

variable {directory : String} {base : Place} {initial : Entries}
  {artifacts done rest : List Artifact} {a : Artifact} {v w : Volume current}

/-! ## Places in the list -/

/-- An artifact with those before it and those behind it. -/
structure Between (artifacts done : List Artifact) (a : Artifact) (rest : List Artifact) : Prop where
  mem : a ∈ artifacts
  before : done ⊆ artifacts
  behind : a :: rest ⊆ artifacts
  notBefore : a ∉ done
  notBehind : a ∉ rest
  apart : done.Disjoint (a :: rest)
  nodupBefore : done.Nodup
  nodupBehind : (a :: rest).Nodup

theorem between_of_split (hplaceable : Placeable initial base artifacts)
    (h : done ++ a :: rest = artifacts) : Between artifacts done a rest := by
  have hnodup : (done ++ a :: rest).Nodup := h ▸ hplaceable.nodup
  have hdisjoint := List.disjoint_of_nodup_append hnodup
  have hbehind := List.Nodup.of_append_right hnodup
  subst h
  exact {
    mem := by simp
    before := List.subset_append_left done _
    behind := List.subset_append_right done _
    notBefore := fun ha => hdisjoint ha (by simp)
    notBehind := (List.nodup_cons.mp hbehind).1
    apart := hdisjoint
    nodupBefore := List.Nodup.of_append_left hnodup
    nodupBehind := hbehind }

/-- The others keep their phases in a step that is about one artifact. -/
theorem Between.others (h : Between artifacts done a rest)
    (hplaceable : Placeable initial base artifacts) (hconfined : Confined base [a] v.entries w.entries)
    {b : Artifact} (hb : b ∈ artifacts) (hne : b ≠ a) {phase : Phase}
    (hstands : b.Stands initial base phase v.entries) : b.Stands initial base phase w.entries :=
  hconfined.stands hplaceable (by simpa using h.mem) hb (by simpa using hne) hstands

theorem Between.keepBefore (h : Between artifacts done a rest)
    (hplaceable : Placeable initial base artifacts) (hconfined : Confined base [a] v.entries w.entries)
    {phase : Phase} (hstands : ∀ b ∈ done, b.Stands initial base phase v.entries) :
    ∀ b ∈ done, b.Stands initial base phase w.entries := by
  intro b hb
  have hne : b ≠ a := fun heq => h.notBefore (heq ▸ hb)
  exact h.others hplaceable hconfined (h.before hb) hne (hstands b hb)

theorem Between.keepBehind (h : Between artifacts done a rest)
    (hplaceable : Placeable initial base artifacts) (hconfined : Confined base [a] v.entries w.entries)
    {phase : Phase} (hstands : ∀ b ∈ a :: rest, b.Stands initial base phase v.entries) :
    ∀ b ∈ rest, b.Stands initial base phase w.entries := by
  intro b hb
  have hb' : b ∈ a :: rest := List.mem_cons_of_mem a hb
  have hne : b ≠ a := fun heq => h.notBehind (heq ▸ hb)
  exact h.others hplaceable hconfined (h.behind hb') hne (hstands b hb')

/-- The artifact of a step joins those before it. -/
theorem Between.join (h : Between artifacts done a rest)
    (hplaceable : Placeable initial base artifacts) (hconfined : Confined base [a] v.entries w.entries)
    {phase : Phase} (hstands : ∀ b ∈ done, b.Stands initial base phase v.entries)
    (ha : a.Stands initial base phase w.entries) :
    ∀ b ∈ done ++ [a], b.Stands initial base phase w.entries := by
  intro b hb
  rcases List.mem_append.mp hb with hb | hb
  · exact h.keepBefore hplaceable hconfined hstands b hb
  · rw [List.mem_singleton.mp hb]
    exact ha

/-! ## Staging -/

/-- How far staging is: some artifacts are staged, the others untouched. -/
structure Staging (initial : Entries) (base : Place) (artifacts done rest : List Artifact)
    (v : Volume current) : Prop where
  split : done ++ rest = artifacts
  confined : Confined base artifacts initial v.entries
  staged : ∀ a ∈ done, a.Stands initial base .staged v.entries
  untouched : ∀ a ∈ rest, a.Stands initial base .untouched v.entries

namespace Staging

theorem next (h : Staging initial base artifacts done (a :: rest) v)
    (hplaceable : Placeable initial base artifacts)
    (hconfined : Confined base [a] v.entries w.entries)
    (hstaged : a.Stands initial base .staged w.entries) :
    Staging initial base artifacts (done ++ [a]) rest w := by
  have hbetween := between_of_split hplaceable h.split
  constructor
  · rw [← h.split, List.append_assoc]
    rfl
  · exact h.confined.trans (hconfined.mono (by simpa using hbetween.mem))
  · exact hbetween.join hplaceable hconfined h.staged hstaged
  · exact hbetween.keepBehind hplaceable hconfined h.untouched

/-- After a failed write what was staged before goes first, then whatever the write has left. -/
theorem abort (h : Staging initial base artifacts done (a :: rest) v)
    (hbase : Volume.place current directory = base)
    (hplaceable : Placeable initial base artifacts) (hinitial : initial.at? base = some .directory)
    (hconfined : Confined base [a] v.entries w.entries) {entry : Option Volume.Entry}
    (hfile : entry ≠ some .directory)
    (hslots : a.slots base w.entries = ⟨entry, initial (base ++ [a.fileName]), none⟩) :
    ((w.run (discard (done.map (staging directory)))).2.remove
      (a.staging directory).temporary).entries = initial := by
  have hbetween := between_of_split hplaceable h.split
  have hsingle : [a] ⊆ artifacts := by simpa using hbetween.mem
  have hconfined' := h.confined.trans (hconfined.mono hsingle)
  have hpresent : Present base w := hconfined'.at?_base.trans hinitial
  have hstaged := hbetween.keepBefore hplaceable hconfined h.staged
  have hdiscard := discard_reaches hbase hplaceable hbetween.before hbetween.nodupBefore hpresent
    hstaged
  have hkept := hdiscard.confined.slots_eq hplaceable hbetween.before hbetween.mem
    hbetween.notBefore
  have hremove := remove_temporary hbase hplaceable hbetween.mem hfile (hkept.trans hslots)
  apply eq_initial hplaceable
  · exact (hconfined'.trans (hdiscard.confined.mono hbetween.before)).trans
      (hremove.confined.mono hsingle)
  · intro b hb
    by_cases hba : b = a
    · exact hremove.stands b (by simp [hba])
    · apply hremove.confined.stands hplaceable hsingle hb (by simpa using hba)
      by_cases hbefore : b ∈ done
      · exact hdiscard.stands b hbefore
      · have hbehind : b ∈ rest := by
          rw [← h.split] at hb
          simpa [hbefore, hba] using hb
        apply hdiscard.confined.stands hplaceable hbetween.before hb hbefore
        exact hbetween.others hplaceable hconfined hb hba
          (h.untouched b (List.mem_cons_of_mem a hbehind))

end Staging

/-- Staging either stages all artifacts or leaves the volume as it was. -/
theorem stage_all_or_nothing (hbase : Volume.place current directory = base)
    (hplaceable : Placeable initial base artifacts) (hinitial : initial.at? base = some .directory)
    (h : Staging initial base artifacts done rest v) :
    (∃ error w, v.run (stage directory (done.map (staging directory)) rest) = (.error error, w) ∧
      w.entries = initial) ∨
    ∃ w, v.run (stage directory (done.map (staging directory)) rest) =
        (.ok (artifacts.map (staging directory)), w) ∧
      Staging initial base artifacts artifacts [] w := by
  induction rest generalizing done v with
  | nil =>
      have hdone : done = artifacts := by simpa using h.split
      subst hdone
      exact .inr ⟨v, rfl, h⟩
  | cons a rest ih =>
      have ha := (between_of_split hplaceable h.split).mem
      rw [run_stage_cons]
      rcases hwrite : v.write (a.staging directory).temporary a.contents with ⟨result, w⟩
      obtain ⟨hconfined, hresult⟩ :=
        write_temporary hbase hplaceable ha (h.untouched a List.mem_cons_self) hwrite
      cases result with
      | ok => simpa using ih (h.next hplaceable hconfined hresult)
      | error error =>
          obtain ⟨entry, hfile, hslots⟩ := hresult
          exact .inl ⟨_, _, rfl, h.abort hbase hplaceable hinitial hconfined hfile hslots⟩

/-! ## Committing -/

/-- How far committing is: some artifacts have replaced their targets, the others are staged. -/
structure Committing (initial : Entries) (base : Place) (artifacts done rest : List Artifact)
    (v : Volume current) : Prop where
  split : done ++ rest = artifacts
  confined : Confined base artifacts initial v.entries
  replaced : ∀ a ∈ done, a.Stands initial base .replaced v.entries
  movable : ∀ a ∈ done, initial (base ++ [a.fileName]) ≠ some .directory
  staged : ∀ a ∈ rest, a.Stands initial base .staged v.entries

namespace Committing

theorem next (h : Committing initial base artifacts done (a :: rest) v)
    (hplaceable : Placeable initial base artifacts)
    (hmovable : initial (base ++ [a.fileName]) ≠ some .directory)
    (hreplaced : Reaches initial base .replaced [a] v.entries w.entries) :
    Committing initial base artifacts (done ++ [a]) rest w := by
  have hbetween := between_of_split hplaceable h.split
  constructor
  · rw [← h.split, List.append_assoc]
    rfl
  · exact h.confined.trans (hreplaced.confined.mono (by simpa using hbetween.mem))
  · exact hbetween.join hplaceable hreplaced.confined h.replaced
      (hreplaced.stands a (List.mem_singleton_self a))
  · intro b hb
    rcases List.mem_append.mp hb with hb | hb
    · exact h.movable b hb
    · rw [List.mem_singleton.mp hb]
      exact hmovable
  · exact hbetween.keepBehind hplaceable hreplaced.confined h.staged

/-- After a failed replacement the earlier ones are undone newest first, then the temporary files go. -/
theorem abort (h : Committing initial base artifacts done (a :: rest) v)
    (hbase : Volume.place current directory = base)
    (hplaceable : Placeable initial base artifacts) (hinitial : initial.at? base = some .directory)
    (hentries : w.entries = v.entries) :
    ((w.run (undo (done.map (commitment initial base directory)).reverse)).2.run
      (discard ((a :: rest).map (staging directory)))).2.entries = initial := by
  have hbetween := between_of_split hplaceable h.split
  have hconfined : Confined base artifacts initial w.entries := hentries ▸ h.confined
  have hpresent : Present base w := hconfined.at?_base.trans hinitial
  have hreverse : done.reverse ⊆ artifacts := fun b hb => hbetween.before (List.mem_reverse.mp hb)
  have hmovable : ∀ b ∈ done.reverse, initial (base ++ [b.fileName]) ≠ some .directory :=
    fun b hb => h.movable b (List.mem_reverse.mp hb)
  have hreplaced : ∀ b ∈ done.reverse, b.Stands initial base .replaced w.entries := by
    intro b hb
    rw [hentries]
    exact h.replaced b (List.mem_reverse.mp hb)
  rw [← List.map_reverse]
  have hundo := undo_reaches hbase hplaceable hreverse (List.nodup_reverse.mpr hbetween.nodupBefore)
    hmovable hpresent hreplaced
  have hstaged : ∀ b ∈ a :: rest, b.Stands initial base .staged
      (w.run (undo (done.reverse.map (commitment initial base directory)))).2.entries := by
    intro b hb
    apply hundo.confined.stands hplaceable hreverse (hbetween.behind hb)
    · exact fun hbefore => hbetween.apart (List.mem_reverse.mp hbefore) hb
    · rw [hentries]
      exact h.staged b hb
  have hdiscard := discard_reaches hbase hplaceable hbetween.behind hbetween.nodupBehind
    (hundo.confined.at?_base.trans hpresent) hstaged
  apply eq_initial hplaceable
  · exact (hconfined.trans (hundo.confined.mono hreverse)).trans
      (hdiscard.confined.mono hbetween.behind)
  · intro b hb
    rw [← h.split] at hb
    rcases List.mem_append.mp hb with hb | hb
    · apply hdiscard.confined.stands hplaceable hbetween.behind (hbetween.before hb)
      · exact hbetween.apart hb
      · exact hundo.stands b (List.mem_reverse.mpr hb)
    · exact hdiscard.stands b hb

end Committing

/-- Committing either replaces all targets or leaves the volume as it was before the staging. -/
theorem commit_all_or_nothing (hbase : Volume.place current directory = base)
    (hplaceable : Placeable initial base artifacts) (hinitial : initial.at? base = some .directory)
    (h : Committing initial base artifacts done rest v) :
    (∃ error w, v.run (commit (done.map (commitment initial base directory))
        (rest.map (staging directory))) = (.error error, w) ∧ w.entries = initial) ∨
    ∃ w, v.run (commit (done.map (commitment initial base directory))
        (rest.map (staging directory))) =
          (.ok (artifacts.map (commitment initial base directory)), w) ∧
      Committing initial base artifacts artifacts [] w := by
  induction rest generalizing done v with
  | nil =>
      have hdone : done = artifacts := by simpa using h.split
      subst hdone
      exact .inr ⟨v, rfl, h⟩
  | cons a rest ih =>
      have ha := (between_of_split hplaceable h.split).mem
      have hpresent : Present base v := h.confined.at?_base.trans hinitial
      rw [List.map_cons, run_commit_cons]
      rcases replace_cases hbase hplaceable ha hpresent (h.staged a List.mem_cons_self) with
        ⟨error, w, hrun, hentries⟩ | ⟨w, hrun, hmovable, hreplaced⟩
      · rw [hrun]
        exact .inl ⟨_, _, rfl, h.abort hbase hplaceable hinitial hentries⟩
      · rw [hrun]
        simpa using ih (h.next hplaceable hmovable hreplaced)

/-! ## Writing -/

/-- What writing may come to: nothing has changed, or the artifacts are there and nothing else has
changed. -/
inductive AllOrNothing (initial : Entries) (base : Place) (artifacts : List Artifact) :
    Except PathError (List ArtifactDigest) → Entries → Prop where
  | nothing (error : PathError) : AllOrNothing initial base artifacts (.error error) initial
  | all {final : Entries}
      (written : ∀ a ∈ artifacts, final (base ++ [a.fileName]) = some (.file a.contents.toUTF8))
      (others : ∀ p, (∀ a ∈ artifacts, p ≠ base ++ [a.fileName]) → final p = initial p) :
      AllOrNothing initial base artifacts (.ok (artifacts.map Artifact.digest)) final

/-- Where all artifacts are finished, they are all that has changed. -/
theorem allOrNothing_of_finished {final : Entries} (hplaceable : Placeable initial base artifacts)
    (h : Reaches initial base .finished artifacts initial final) :
    AllOrNothing initial base artifacts (.ok (artifacts.map Artifact.digest)) final := by
  refine .all (fun a ha => congrArg Slots.target (h.stands a ha)) ?_
  intro p hp
  by_cases hname : ∃ a ∈ artifacts, ∃ name ∈ reserved a.fileName, p = base ++ [name]
  · obtain ⟨a, ha, name, hname, rfl⟩ := hname
    obtain ⟨htemporary, hbackup⟩ := hplaceable.free a ha
    simp only [reserved, List.mem_cons, List.not_mem_nil, or_false] at hname
    rcases hname with rfl | rfl | rfl
    · exact (congrArg Slots.temporary (h.stands a ha)).trans htemporary.symm
    · exact absurd rfl (hp a ha)
    · exact (congrArg Slots.backup (h.stands a ha)).trans hbackup.symm
  · apply h.confined
    intro a ha name hmem heq
    exact hname ⟨a, ha, name, hmem, heq⟩

/-- Without its directory no artifact is written, and nothing is left of the attempt. -/
theorem stage_missing (hbase : Volume.place current directory = base) {v : Volume current}
    (hplaceable : Placeable v.entries base artifacts) (ha : a ∈ artifacts)
    (hmissing : v.entries.at? base ≠ some .directory) (rest : List Artifact) :
    ∃ error w, v.run (stage directory [] (a :: rest)) = (.error error, w) ∧
      w.entries = v.entries := by
  have hplace := place_temporary hbase (hplaceable.plain ha)
  have hwritten := v.write_written (a.staging directory).temporary a.contents
  have hrefused : v.entries.accept (base ++ [temporaryName a.fileName]) ≠ .ok () := by
    intro haccept
    rw [Volume.Entries.accept_eq_ok, List.dropLast_concat] at haccept
    exact hmissing haccept.1
  rw [run_stage_cons]
  rcases hwrite : v.write (a.staging directory).temporary a.contents with ⟨result, w⟩
  rw [hwrite, hplace] at hwritten
  cases hwritten with
  | done haccept => exact absurd haccept hrefused
  | broken haccept => exact absurd haccept hrefused
  | refused error =>
      have hfree := (hplaceable.free a ha).1
      refine ⟨_, _, rfl, ?_⟩
      change ((v.leave v.entries).remove (a.staging directory).temporary).entries = v.entries
      rw [Volume.remove_entries hplace (by simp [hfree]), Volume.leave_entries, ← hfree,
        Function.update_eq_self]

theorem writeAll_all_or_nothing (v : Volume current) (directory : String)
    (artifacts : List Artifact)
    (h : Placeable v.entries (Volume.place current directory) artifacts) :
    AllOrNothing v.entries (Volume.place current directory) artifacts
      (v.run (writeAll directory artifacts)).1 (v.run (writeAll directory artifacts)).2.entries := by
  rw [run_writeAll]
  by_cases hpresent : v.entries.at? (Volume.place current directory) = some .directory
  · have hstaging : Staging v.entries (Volume.place current directory) artifacts [] artifacts v :=
      ⟨rfl, .refl, by simp, fun a ha => stands_initial h ha⟩
    rcases stage_all_or_nothing rfl h hpresent hstaging with
      ⟨error, w, hstage, hentries⟩ | ⟨w, hstage, hstaged⟩
    · rw [List.map_nil] at hstage
      rw [hstage]
      exact hentries ▸ .nothing error
    · rw [List.map_nil] at hstage
      rw [hstage]
      have hcommitting : Committing v.entries (Volume.place current directory) artifacts [] artifacts
          w := ⟨rfl, hstaged.confined, by simp, by simp, hstaged.staged⟩
      simp only
      rcases commit_all_or_nothing rfl h hpresent hcommitting with
        ⟨error, w', hcommit, hentries⟩ | ⟨w', hcommit, hcommitted⟩
      · rw [List.map_nil] at hcommit
        rw [hcommit]
        exact hentries ▸ .nothing error
      · rw [List.map_nil] at hcommit
        rw [hcommit]
        have hremoved := removeBackups_reaches rfl h hcommitted.movable
          (hcommitted.confined.at?_base.trans hpresent) hcommitted.replaced
        exact allOrNothing_of_finished h
          ⟨hcommitted.confined.trans hremoved.confined, hremoved.stands⟩
  · cases artifacts with
    | nil => exact .all (by simp) fun _ _ => rfl
    | cons a rest =>
        obtain ⟨error, w, hstage, hentries⟩ := stage_missing rfl h List.mem_cons_self hpresent rest
        rw [hstage]
        exact hentries ▸ .nothing error

/-! ## A run that fails halfway -/

/-- Two files, the first of which is there already. -/
def pair : List Artifact := [⟨"a.js", "new"⟩, ⟨"b.js", "new"⟩]

/-- A volume on which the last of five operations is refused. -/
def halfway : Volume ["work"] where
  entries p :=
    if p = ["work"] ∨ p = ["work", "out"] then some .directory
    else if p = ["work", "out", "a.js"] then some (.file "old".toUTF8)
    else none
  fates := [.granted, .granted, .granted, .granted, .refused .busy none]

theorem writeAll_halfway : Placeable halfway.entries (Volume.place ["work"] "out") pair ∧
    AllOrNothing halfway.entries (Volume.place ["work"] "out") pair
      (halfway.run (writeAll "out" pair)).1 (halfway.run (writeAll "out" pair)).2.entries := by
  have hplace : Volume.place ["work"] "out" = ["work", "out"] := by decide
  have hplaceable : Placeable halfway.entries (Volume.place ["work"] "out") pair := by
    rw [hplace]
    refine ⟨⟨?_, by decide, by decide⟩, ?_⟩
    · intro f hf
      simp only [pair, List.map_cons, List.map_nil, List.mem_cons, List.not_mem_nil, or_false] at hf
      rcases hf with rfl | rfl
      · exact ⟨by decide, by decide, by decide, by decide⟩
      · exact ⟨by decide, by decide, by decide, by decide⟩
    · intro a ha
      simp only [pair, List.mem_cons, List.not_mem_nil, or_false] at ha
      rcases ha with rfl | rfl
      · exact ⟨by decide, by decide⟩
      · exact ⟨by decide, by decide⟩
  exact ⟨hplaceable, writeAll_all_or_nothing halfway "out" pair hplaceable⟩

end Writing

end Artifact

end SchemaCompiler
