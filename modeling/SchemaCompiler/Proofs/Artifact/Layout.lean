import SchemaCompiler.Artifact.Writing
import SchemaCompiler.Proofs.FileSystem.Volume
import Mathlib.Data.List.Nodup

/-! # Where artifacts lie while they are written

Each artifact has three names in the directory. What lies under them says how far the artifact is; what
lies elsewhere never changes. -/

namespace SchemaCompiler

namespace Artifact

/-! ## Names -/

/-- A dot in front and an extension behind keep names apart. -/
theorem hidden_injective {extension f g : String}
    (h : "." ++ f ++ extension = "." ++ g ++ extension) : f = g := by
  have hlist := congrArg String.toList h
  rw [String.toList_append, String.toList_append, String.toList_append, String.toList_append] at hlist
  exact String.toList_inj.mp (List.append_cancel_left (List.append_cancel_right hlist))

theorem temporaryName_injective {f g : String} (h : temporaryName f = temporaryName g) : f = g :=
  hidden_injective h

theorem backupName_injective {f g : String} (h : backupName f = backupName g) : f = g :=
  hidden_injective h

/-- A name ends as its extension ends. -/
theorem getLast?_append_extension {stem extension : String} {c : Char}
    (h : extension.toList.getLast? = some c) : (stem ++ extension).toList.getLast? = some c := by
  rw [String.toList_append, List.getLast?_append, h, Option.some_or]

theorem getLast?_temporaryName {f : String} : (temporaryName f).toList.getLast? = some 'p' :=
  getLast?_append_extension (by decide)

theorem getLast?_backupName {f : String} : (backupName f).toList.getLast? = some 'k' :=
  getLast?_append_extension (by decide)

theorem ne_of_getLast?_ne {f g : String} {c c' : Char} (hf : f.toList.getLast? = some c)
    (hg : g.toList.getLast? = some c') (hne : c ≠ c') : f ≠ g := by
  rintro rfl
  exact hne (Option.some.inj (hf.symm.trans hg))

theorem temporaryName_ne_backupName (f g : String) : temporaryName f ≠ backupName g :=
  ne_of_getLast?_ne getLast?_temporaryName getLast?_backupName (by decide)

/-- Such a name is as plain as the name within. -/
theorem plain_hidden {f extension : String} (h : Path.Plain f) (hslash : '/' ∉ extension.toList)
    (hlength : 2 ≤ extension.length) : Path.Plain ("." ++ f ++ extension) := by
  have hlong : 2 < ("." ++ f ++ extension).length := by
    rw [String.length_append, String.length_append]
    have hdot : ".".length = 1 := by decide
    omega
  constructor
  · intro heq
    exact absurd (heq ▸ hlong) (by decide)
  · intro heq
    exact absurd (heq ▸ hlong) (by decide)
  · intro heq
    exact absurd (heq ▸ hlong) (by decide)
  · simp [h.slash_notMem, hslash]

theorem plain_temporaryName {f : String} (h : Path.Plain f) : Path.Plain (temporaryName f) :=
  plain_hidden h (by decide) (by decide)

theorem plain_backupName {f : String} (h : Path.Plain f) : Path.Plain (backupName f) :=
  plain_hidden h (by decide) (by decide)

/-- The names that a file takes up in a directory. -/
def reserved (fileName : String) : List String :=
  [temporaryName fileName, fileName, backupName fileName]

theorem flatMap_reserved_subset {fileNames fileNames' : List String} (h : fileNames ⊆ fileNames') :
    fileNames.flatMap reserved ⊆ fileNames'.flatMap reserved := by
  intro name hname
  obtain ⟨f, hf, hname⟩ := List.mem_flatMap.mp hname
  exact List.mem_flatMap.mpr ⟨f, h hf, hname⟩

/-- Names for files that do not get in each other's way: distinct and plain, and none of them the
temporary or backup name of another one. -/
structure Separate (fileNames : List String) : Prop where
  plain : ∀ f ∈ fileNames, Path.Plain f
  distinct : fileNames.Nodup
  apart : ∀ f ∈ fileNames, ∀ g ∈ fileNames, f ≠ temporaryName g ∧ f ≠ backupName g

namespace Separate

variable {fileNames fileNames' : List String} {f g : String}

theorem sublist (h : Separate fileNames) (hsub : fileNames'.Sublist fileNames) :
    Separate fileNames' where
  plain f hf := h.plain f (hsub.subset hf)
  distinct := h.distinct.sublist hsub
  apart f hf g hg := h.apart f (hsub.subset hf) g (hsub.subset hg)

theorem reserved_nodup (h : Separate fileNames) (hf : f ∈ fileNames) : (reserved f).Nodup := by
  obtain ⟨htemporary, hbackup⟩ := h.apart f hf f hf
  simp [reserved, htemporary.symm, hbackup, temporaryName_ne_backupName]

theorem singleton (h : Path.Plain f) : Separate [f] := by
  have hlonger : ∀ extension : String, f ≠ "." ++ f ++ extension := by
    intro extension heq
    have hlength := congrArg String.length heq
    rw [String.length_append, String.length_append] at hlength
    have hdot : ".".length = 1 := by decide
    omega
  refine ⟨by simpa using h, List.nodup_singleton f, ?_⟩
  intro g hg g' hg'
  rw [List.mem_singleton.mp hg, List.mem_singleton.mp hg']
  exact ⟨hlonger ".tmp", hlonger ".bak"⟩

/-- Different files have no name in common. -/
theorem disjoint (h : Separate fileNames) (hf : f ∈ fileNames) (hg : g ∈ fileNames) (hne : f ≠ g) :
    (reserved f).Disjoint (reserved g) := by
  obtain ⟨hfg, hfg'⟩ := h.apart f hf g hg
  obtain ⟨hgf, hgf'⟩ := h.apart g hg f hf
  intro name hname hname'
  simp only [reserved, List.mem_cons, List.not_mem_nil, or_false] at hname hname'
  rcases hname with rfl | rfl | rfl
  · rcases hname' with heq | heq | heq
    · exact hne (temporaryName_injective heq)
    · exact hgf heq.symm
    · exact temporaryName_ne_backupName _ _ heq
  · rcases hname' with heq | heq | heq
    · exact hfg heq
    · exact hne heq
    · exact hfg' heq
  · rcases hname' with heq | heq | heq
    · exact temporaryName_ne_backupName _ _ heq.symm
    · exact hgf' heq.symm
    · exact hne (backupName_injective heq)

end Separate

/-- Artifacts that have a directory's names for themselves: their file names do not get in each other's
way, and nothing lies under the temporary and backup names yet. -/
structure Placeable (initial : Volume.Entries) (base : Place) (artifacts : List Artifact) : Prop where
  separate : Separate (artifacts.map (·.fileName))
  free : ∀ a ∈ artifacts, initial (base ++ [temporaryName a.fileName]) = none ∧
    initial (base ++ [backupName a.fileName]) = none

namespace Placeable

variable {initial : Volume.Entries} {base : Place} {artifacts : List Artifact} {a b : Artifact}

theorem plain (h : Placeable initial base artifacts) (ha : a ∈ artifacts) : Path.Plain a.fileName :=
  h.separate.plain _ (List.mem_map_of_mem ha)

theorem reserved_nodup (h : Placeable initial base artifacts) (ha : a ∈ artifacts) :
    (reserved a.fileName).Nodup :=
  h.separate.reserved_nodup (List.mem_map_of_mem ha)

/-- Different artifacts have no name in common. -/
theorem disjoint (h : Placeable initial base artifacts) (ha : a ∈ artifacts) (hb : b ∈ artifacts)
    (hne : a ≠ b) : (reserved a.fileName).Disjoint (reserved b.fileName) := by
  apply h.separate.disjoint (List.mem_map_of_mem ha) (List.mem_map_of_mem hb)
  intro heq
  exact hne (List.inj_on_of_nodup_map h.separate.distinct ha hb heq)

theorem nodup (h : Placeable initial base artifacts) : artifacts.Nodup :=
  List.Nodup.of_map _ h.separate.distinct

end Placeable

/-! ## Slots -/

/-- What lies under the three names of an artifact. -/
structure Slots where
  temporary : Option Volume.Entry
  target : Option Volume.Entry
  backup : Option Volume.Entry

def slots (base : Place) (e : Volume.Entries) (a : Artifact) : Slots :=
  ⟨e (base ++ [temporaryName a.fileName]), e (base ++ [a.fileName]), e (base ++ [backupName a.fileName])⟩

/-- How far an artifact is. -/
inductive Phase
  | untouched
  | staged
  /-- What was at the target has been moved away. -/
  | aside
  | replaced
  | finished

/-- What lies under an artifact's names in a phase, given what was at its target and what is to be. -/
def Phase.slots (old : Option Volume.Entry) (contents : ByteArray) : Phase → Slots
  | .untouched => ⟨none, old, none⟩
  | .staged => ⟨some (.file contents), old, none⟩
  | .aside => ⟨some (.file contents), none, old⟩
  | .replaced => ⟨none, some (.file contents), old⟩
  | .finished => ⟨none, some (.file contents), none⟩

/-- An artifact is in a phase of a run that began with `initial`. -/
def Stands (initial : Volume.Entries) (base : Place) (phase : Phase) (e : Volume.Entries)
    (a : Artifact) : Prop :=
  a.slots base e = phase.slots (initial (base ++ [a.fileName])) a.contents.toUTF8

/-- Two states differ at most under the names of some artifacts. -/
def Confined (base : Place) (artifacts : List Artifact) (e e' : Volume.Entries) : Prop :=
  ∀ p, (∀ a ∈ artifacts, ∀ name ∈ reserved a.fileName, p ≠ base ++ [name]) → e' p = e p

/-! ## Steps -/

section Steps

open Volume (Entries)

variable {initial e e' e'' : Entries} {base : Place} {artifacts as bs : List Artifact} {a b : Artifact}

theorem Confined.refl : Confined base as e e := fun _ _ => rfl

theorem Confined.mono (h : Confined base as e e') (hsub : as ⊆ bs) : Confined base bs e e' := by
  intro p hp
  exact h p fun a ha => hp a (hsub ha)

theorem Confined.trans (h : Confined base as e e') (h' : Confined base as e' e'') :
    Confined base as e e'' := by
  intro p hp
  rw [h' p hp, h p hp]

theorem confined_update {name : String} (hname : name ∈ reserved a.fileName) (entry : Option Volume.Entry) :
    Confined base [a] e (Function.update e (base ++ [name]) entry) := by
  intro p hp
  exact Function.update_of_ne (hp a (by simp) name hname) entry e

/-- The directory itself lies under none of the names in it. -/
theorem Confined.at?_base (h : Confined base as e e') : e'.at? base = e.at? base := by
  have hbase : e' base = e base := by
    apply h
    intro a _ name _ heq
    have hlength := congrArg List.length heq
    simp at hlength
  rw [Entries.at?, Entries.at?, hbase]

/-- Artifacts that a step is not about keep what lies under their names. -/
theorem Confined.slots_eq (h : Confined base as e e') (hplaceable : Placeable initial base artifacts)
    (hsub : as ⊆ artifacts) (hb : b ∈ artifacts) (hnot : b ∉ as) :
    b.slots base e' = b.slots base e := by
  have hkeep : ∀ name ∈ reserved b.fileName, e' (base ++ [name]) = e (base ++ [name]) := by
    intro name hname
    apply h
    intro a ha other hother heq
    have hne : b ≠ a := fun hba => hnot (hba ▸ ha)
    have hsame : name = other := by simpa using heq
    exact hplaceable.disjoint hb (hsub ha) hne hname (hsame ▸ hother)
  rw [slots, slots, hkeep _ (by simp [reserved]), hkeep _ (by simp [reserved]), hkeep _ (by simp [reserved])]

/-- A step that leaves what lies under the names it is about changes nothing. -/
theorem Confined.eq_of_slots (h : Confined base as e e')
    (hslots : ∀ a ∈ as, a.slots base e' = a.slots base e) : e' = e := by
  funext p
  by_cases hp : ∃ a ∈ as, ∃ name ∈ reserved a.fileName, p = base ++ [name]
  · obtain ⟨a, ha, name, hname, rfl⟩ := hp
    have hsame := hslots a ha
    rw [slots, slots, Slots.mk.injEq] at hsame
    obtain ⟨htemporary, htarget, hbackup⟩ := hsame
    simp only [reserved, List.mem_cons, List.not_mem_nil, or_false] at hname
    rcases hname with rfl | rfl | rfl
    · exact htemporary
    · exact htarget
    · exact hbackup
  · apply h
    intro a ha name hname heq
    exact hp ⟨a, ha, name, hname, heq⟩

/-! ## Changes under one name -/

theorem slots_update_temporary (h : Placeable initial base artifacts) (ha : a ∈ artifacts)
    (entry : Option Volume.Entry) :
    a.slots base (Function.update e (base ++ [temporaryName a.fileName]) entry) =
      { a.slots base e with temporary := entry } := by
  have hnodup := h.reserved_nodup ha
  simp only [reserved, List.nodup_cons, List.mem_cons, not_or] at hnodup
  obtain ⟨⟨htarget, hbackup, -⟩, -⟩ := hnodup
  simp [slots, Ne.symm htarget, Ne.symm hbackup]

theorem slots_update_target (h : Placeable initial base artifacts) (ha : a ∈ artifacts)
    (entry : Option Volume.Entry) :
    a.slots base (Function.update e (base ++ [a.fileName]) entry) =
      { a.slots base e with target := entry } := by
  have hnodup := h.reserved_nodup ha
  simp only [reserved, List.nodup_cons, List.mem_cons, not_or] at hnodup
  obtain ⟨⟨htemporary, -⟩, ⟨hbackup, -⟩, -⟩ := hnodup
  simp [slots, htemporary, Ne.symm hbackup]

theorem slots_update_backup (h : Placeable initial base artifacts) (ha : a ∈ artifacts)
    (entry : Option Volume.Entry) :
    a.slots base (Function.update e (base ++ [backupName a.fileName]) entry) =
      { a.slots base e with backup := entry } := by
  have hnodup := h.reserved_nodup ha
  simp only [reserved, List.nodup_cons, List.mem_cons, not_or] at hnodup
  obtain ⟨⟨-, htemporary, -⟩, ⟨htarget, -⟩, -⟩ := hnodup
  simp [slots, htemporary, htarget]

/-! ## Phases -/

/-- A step takes some artifacts to a phase and leaves everything else alone. -/
structure Reaches (initial : Entries) (base : Place) (phase : Phase) (as : List Artifact)
    (e e' : Entries) : Prop where
  confined : Confined base as e e'
  stands : ∀ a ∈ as, a.Stands initial base phase e'

theorem reaches_singleton {phase : Phase} (hconfined : Confined base [a] e e')
    (hstands : a.Stands initial base phase e') : Reaches initial base phase [a] e e' := by
  refine ⟨hconfined, ?_⟩
  intro b hb
  rw [List.mem_singleton.mp hb]
  exact hstands

theorem Confined.stands {phase : Phase} (h : Confined base as e e')
    (hplaceable : Placeable initial base artifacts) (hsub : as ⊆ artifacts) (hb : b ∈ artifacts)
    (hnot : b ∉ as) (hstands : b.Stands initial base phase e) : b.Stands initial base phase e' := by
  rw [Stands, h.slots_eq hplaceable hsub hb hnot]
  exact hstands

theorem stands_initial (h : Placeable initial base artifacts) (ha : a ∈ artifacts) :
    a.Stands initial base .untouched initial := by
  obtain ⟨htemporary, hbackup⟩ := h.free a ha
  rw [Stands, slots, htemporary, hbackup]
  rfl

/-- Where all artifacts are untouched, nothing has changed. -/
theorem eq_initial (hplaceable : Placeable initial base artifacts)
    (hconfined : Confined base artifacts initial e)
    (h : ∀ a ∈ artifacts, a.Stands initial base .untouched e) : e = initial := by
  apply hconfined.eq_of_slots
  intro a ha
  exact (h a ha).trans (stands_initial hplaceable ha).symm

end Steps

end Artifact

end SchemaCompiler
