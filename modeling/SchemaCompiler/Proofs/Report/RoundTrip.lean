import SchemaCompiler.Proofs.Batch.Run
import SchemaCompiler.Proofs.Json.Reader
import SchemaCompiler.Proofs.Json.Record
import SchemaCompiler.Report.Decoder

/-! # Reports are read back

Every outcome that is added is counted once, so that the numbers of a report stay in step with its
entries. What is written of a report is the report again when it is read: also where a part of an entry
is missing, for each such part is missing in a way of its own. -/

namespace SchemaCompiler

open Json

/-! ## Counting outcomes -/

namespace Report

/-- The three things that may happen to a document. -/
inductive Status
  | compiled
  | skipped
  | failed
deriving DecidableEq

def Outcome.status : Outcome → Status
  | .compiled _ => .compiled
  | .skipped _ => .skipped
  | .failed .. => .failed

/-- How many documents a summary says had a status. -/
def Summary.number (s : Summary) : Status → Nat
  | .compiled => s.compiled
  | .skipped => s.skipped
  | .failed => s.failed

/-- A report lists entries and has counted each of them. -/
structure Tallies (r : Report) (entries : List Entry) : Prop where
  files : r.files = entries
  number : ∀ status, r.summary.number status = entries.countP (·.outcome.status = status)
  total : r.summary.total = entries.length
  sum : r.summary.total = r.summary.compiled + r.summary.skipped + r.summary.failed

variable {r : Report} {entries : List Entry}

theorem tallies_nil (timestamp mode : String) : Tallies { timestamp := timestamp, mode := mode } [] where
  files := rfl
  number status := by cases status <;> rfl
  total := rfl
  sum := rfl

theorem Summary.number_count (s : Summary) (o : Outcome) (status : Status) :
    (s.count o).number status = s.number status + if o.status = status then 1 else 0 := by
  cases o <;> cases status <;> rfl

theorem Summary.total_count (s : Summary) (o : Outcome) : (s.count o).total = s.total + 1 := by
  cases o <;> rfl

theorem Summary.sum_count {s : Summary} (h : s.total = s.compiled + s.skipped + s.failed) (o : Outcome) :
    (s.count o).total = (s.count o).compiled + (s.count o).skipped + (s.count o).failed := by
  cases o <;> simp only [Summary.count] <;> omega

theorem Tallies.add (h : Tallies r entries) (schema : String) (o : Outcome) :
    Tallies (r.add schema o) (entries ++ [⟨schema, o⟩]) where
  files := by rw [Report.add, h.files]
  number status := by
    rw [Report.add, Summary.number_count, h.number, List.countP_append, List.countP_singleton]
    simp
  total := by
    rw [Report.add, Summary.total_count, h.total]
    simp
  sum := Summary.sum_count h.sum o

/-- Further outcomes are counted as well. -/
theorem Tallies.addAll (h : Tallies r entries) (more : List Entry) :
    Tallies (Batch.addAll r more) (entries ++ more) := by
  induction more generalizing r entries with
  | nil => simpa [Batch.addAll] using h
  | cons e more ih =>
      have hnext := ih (h.add e.schema e.outcome)
      rwa [List.append_assoc] at hnext

theorem Tallies.hasFailures (h : Tallies r entries) :
    r.hasFailures ↔ ∃ e ∈ entries, e.outcome.status = .failed := by
  have hfailed : r.summary.failed = entries.countP (·.outcome.status = .failed) := h.number .failed
  simp [Report.hasFailures, hfailed, List.countP_pos_iff]

end Report

/-! ## Parts of a report

What a part is read as. Only a number of bytes or of documents has to fit a word. -/

theorem ArtifactDigest.decode?_encode {digest : ArtifactDigest} (h : Word64.fitsUnsigned digest.bytes) :
    decode? digest.encode = some digest := by
  have hmembers : digest.encode.object? = some digest.members := rfl
  have hfile : required digest.members "file" string? = some digest.file := rfl
  have hsha256 : required digest.members "sha256" string? = some digest.sha256 := rfl
  have hbytes : required digest.members "bytes" nat? = some digest.bytes :=
    required_of_lookup rfl (nat?_nat h)
  simp [decode?, hmembers, hfile, hsha256, hbytes]

theorem Location.decode?_encode (location : Location) : decode? location.encode = some location := by
  have hmembers : location.encode.object? = some location.members := rfl
  have hdatabase : optional location.members "database" string? = some location.database :=
    optional_orNull rfl rfl fun _ _ => rfl
  have htable : optional location.members "table" string? = some location.table :=
    optional_orNull rfl rfl fun _ _ => rfl
  have hcolumn : optional location.members "column" string? = some location.column :=
    optional_orNull rfl rfl fun _ _ => rfl
  simp [decode?, hmembers, hdatabase, htable, hcolumn]

theorem ErrorKind.decode?_encode (kind : ErrorKind) : decode? kind.encode = some kind := by
  cases kind <;> rfl

namespace Report

/-- The number of bytes of each artifact fits a word. -/
def Outcome.Fits : Outcome → Prop
  | .compiled artifacts => ∀ digest ∈ artifacts, Word64.fitsUnsigned digest.bytes
  | .skipped _ | .failed .. => True

instance : (o : Outcome) → Decidable o.Fits
  | .compiled artifacts =>
    inferInstanceAs (Decidable (∀ digest ∈ artifacts, Word64.fitsUnsigned digest.bytes))
  | .skipped _ | .failed .. => .isTrue trivial

/-- A missing location is left out, and one with no part is not. -/
theorem Entry.ofMembers?_members {e : Entry} (h : e.outcome.Fits) :
    Outcome.ofMembers? e.members = some e.outcome := by
  obtain ⟨schema, outcome⟩ := e
  generalize hm : Entry.members ⟨schema, outcome⟩ = m
  cases outcome with
  | compiled artifacts =>
      have hstatus : required m "status" string? = some "compiled" := by rw [← hm]; rfl
      have hartifacts : required m "artifacts" (list? ArtifactDigest.decode?) = some artifacts :=
        required_of_lookup (hm ▸ rfl) (list?_ofList fun digest hd => digest.decode?_encode (h digest hd))
      simp [Outcome.ofMembers?, hstatus, hartifacts]
  | skipped reason =>
      have hstatus : required m "status" string? = some "skipped" := by rw [← hm]; rfl
      have hreason : required m "reason" string? = some reason := by rw [← hm]; rfl
      simp [Outcome.ofMembers?, hstatus, hreason]
  | failed kind message location =>
      have hstatus : required m "status" string? = some "failed" := by rw [← hm]; rfl
      have hkind : optional m "code" ErrorKind.decode? = some kind :=
        optional_orNull (hm ▸ rfl) rfl fun kind _ => kind.decode?_encode
      have hmessage : required m "message" string? = some message := by rw [← hm]; rfl
      have hwritten : m.lookup "location" = location.map Location.encode := by
        simp [← hm, members, Outcome.members, lookup_cons, lookup_optionalMember]
      have hlocation : optional m "location" Location.decode? = some location :=
        optional_of_lookup hwritten fun location _ => ⟨by simp [Location.encode], location.decode?_encode⟩
      simp [Outcome.ofMembers?, hstatus, hkind, hmessage, hlocation]

theorem Entry.decode?_encode {e : Entry} (h : e.outcome.Fits) : decode? e.encode = some e := by
  have hmembers : e.encode.object? = some e.members := rfl
  have hschema : required e.members "schema" string? = some e.schema := rfl
  simp [decode?, hmembers, hschema, ofMembers?_members h]

theorem versionPart?_nat (part : UInt32) : versionPart? (.nat part.toNat) = some part := by
  have hfits : Word64.fitsUnsigned part.toNat :=
    Word64.fitsUnsigned_iff.mpr (Nat.lt_trans part.toNat_lt (by decide))
  have hpart : part.toNat < UInt32.size := part.toNat_lt
  simp [versionPart?, nat?_nat hfits, hpart]

theorem Version.decode?_encode (v : Version) : decode? v.encode = some v := by
  have hmembers : v.encode.object? = some v.members := rfl
  have hmajor : required v.members "major" versionPart? = some v.major :=
    required_of_lookup rfl (versionPart?_nat v.major)
  have hminor : required v.members "minor" versionPart? = some v.minor :=
    required_of_lookup rfl (versionPart?_nat v.minor)
  simp [decode?, hmembers, hmajor, hminor]

/-- No number of a summary is greater than the total. -/
theorem Summary.decode?_encode {s : Summary} (hsum : s.total = s.compiled + s.skipped + s.failed)
    (hfits : Word64.fitsUnsigned s.total) : decode? s.encode = some s := by
  have hread : ∀ n : Nat, n ≤ s.total → nat? (.nat n) = some n := by
    intro n hn
    rw [Word64.fitsUnsigned_iff] at hfits
    exact nat?_nat (Word64.fitsUnsigned_iff.mpr (Nat.lt_of_le_of_lt hn hfits))
  have hmembers : s.encode.object? = some s.members := rfl
  have htotal : required s.members "total" nat? = some s.total :=
    required_of_lookup rfl (hread s.total (Nat.le_refl _))
  have hcompiled : required s.members "compiled" nat? = some s.compiled :=
    required_of_lookup rfl (hread s.compiled (by omega))
  have hskipped : required s.members "skipped" nat? = some s.skipped :=
    required_of_lookup rfl (hread s.skipped (by omega))
  have hfailed : required s.members "failed" nat? = some s.failed :=
    required_of_lookup rfl (hread s.failed (by omega))
  simp [decode?, hmembers, htotal, hcompiled, hskipped, hfailed]

theorem decode?_encode {r : Report} (hfiles : ∀ e ∈ r.files, e.outcome.Fits)
    (hsum : r.summary.total = r.summary.compiled + r.summary.skipped + r.summary.failed)
    (hfits : Word64.fitsUnsigned r.summary.total) : decode? r.encode = some r := by
  have hmembers : r.encode.object? = some r.members := rfl
  have hversion : required r.members "version" Version.decode? = some r.version :=
    required_of_lookup rfl r.version.decode?_encode
  have htimestamp : required r.members "timestamp" string? = some r.timestamp := rfl
  have hmode : required r.members "mode" string? = some r.mode := rfl
  have hsummary : required r.members "summary" Summary.decode? = some r.summary :=
    required_of_lookup rfl (Summary.decode?_encode hsum hfits)
  have hentries : required r.members "files" (list? Entry.decode?) = some r.files :=
    required_of_lookup rfl (list?_ofList fun e he => Entry.decode?_encode (hfiles e he))
  simp [decode?, hmembers, hversion, htimestamp, hmode, hsummary, hentries]

end Report

/-! ## Depth -/

section Depth

variable {P : Binary64 → Prop}

theorem ArtifactDigest.storable_encode (digest : ArtifactDigest) (depth : Nat) :
    digest.encode.Storable P (depth + 1) := by
  refine .object (by decide : ["file", "sha256", "bytes"].Nodup) ?_
  simp only [members, List.forall_mem_cons]
  exact ⟨.string, .string, storable_nat _, List.forall_mem_nil _⟩

theorem Location.storable_encode (location : Location) (depth : Nat) :
    location.encode.Storable P (depth + 1) := by
  have hpart : ∀ x : Option String, (orNull .string x).Storable P depth :=
    fun _ => storable_orNull fun _ _ => .string
  refine .object (by decide : ["database", "table", "column"].Nodup) ?_
  simp only [members, List.forall_mem_cons]
  exact ⟨hpart _, hpart _, hpart _, List.forall_mem_nil _⟩

namespace Report

theorem Outcome.storable_members (o : Outcome) (depth : Nat) :
    ∀ member ∈ o.members, member.2.Storable P (depth + 2) := by
  cases o with
  | compiled artifacts =>
      simp only [Outcome.members, List.forall_mem_cons]
      exact ⟨.string, storable_ofList fun digest _ => digest.storable_encode depth, List.forall_mem_nil _⟩
  | skipped reason =>
      simp only [Outcome.members, List.forall_mem_cons]
      exact ⟨.string, .string, List.forall_mem_nil _⟩
  | failed kind message location =>
      have hkind : (orNull ErrorKind.encode kind).Storable P (depth + 2) :=
        storable_orNull fun _ _ => .string
      have hlocation : ∀ member ∈ optionalMember "location" Location.encode location,
          member.2.Storable P (depth + 2) :=
        forall_optionalMember fun location _ => location.storable_encode (depth + 1)
      simp only [Outcome.members, List.forall_mem_append, List.forall_mem_cons]
      exact ⟨⟨.string, hkind, .string, List.forall_mem_nil _⟩, hlocation⟩

theorem Entry.nodup_keys (e : Entry) : (e.members.map Prod.fst).Nodup := by
  obtain ⟨schema, outcome⟩ := e
  cases outcome with
  | compiled => exact (by decide : ["schema", "status", "artifacts"].Nodup)
  | skipped => exact (by decide : ["schema", "status", "reason"].Nodup)
  | failed kind message location =>
      cases location with
      | none => exact (by decide : ["schema", "status", "code", "message"].Nodup)
      | some => exact (by decide : ["schema", "status", "code", "message", "location"].Nodup)

theorem Entry.storable_encode (e : Entry) (depth : Nat) : e.encode.Storable P (depth + 3) :=
  .object e.nodup_keys (List.forall_mem_cons.mpr ⟨.string, e.outcome.storable_members depth⟩)

theorem Version.storable_encode (v : Version) (depth : Nat) : v.encode.Storable P (depth + 1) := by
  refine .object (by decide : ["major", "minor"].Nodup) ?_
  simp only [members, List.forall_mem_cons]
  exact ⟨storable_nat _, storable_nat _, List.forall_mem_nil _⟩

theorem Summary.storable_encode (s : Summary) (depth : Nat) : s.encode.Storable P (depth + 1) := by
  refine .object (by decide : ["total", "compiled", "skipped", "failed"].Nodup) ?_
  simp only [members, List.forall_mem_cons]
  exact ⟨storable_nat _, storable_nat _, storable_nat _, storable_nat _, List.forall_mem_nil _⟩

theorem storable_encode (r : Report) : r.encode.Storable P 5 := by
  refine .object (by decide : ["version", "timestamp", "mode", "summary", "files"].Nodup) ?_
  simp only [members, List.forall_mem_cons]
  exact ⟨r.version.storable_encode 3, .string, .string, r.summary.storable_encode 3,
    storable_ofList fun e _ => e.storable_encode 0, List.forall_mem_nil _⟩

end Report

end Depth

/-! ## Reports -/

namespace Report

/-- The report of a run to whose empty report these outcomes were added. -/
def gathered (timestamp mode : String) (entries : List Entry) : Report :=
  Batch.addAll { timestamp := timestamp, mode := mode } entries

/-- A report lists the outcomes that were added in order, has counted each of them, and is read back from
its text. -/
theorem gathered_restored [RealReader] (timestamp mode : String) (entries : List Entry)
    (hcount : Word64.fitsUnsigned entries.length) (hsizes : ∀ e ∈ entries, e.outcome.Fits) :
    Tallies (gathered timestamp mode entries) entries ∧
      ((gathered timestamp mode entries).hasFailures ↔ ∃ e ∈ entries, e.outcome.status = .failed) ∧
      parse? (gathered timestamp mode entries).text = some (gathered timestamp mode entries) := by
  have htallies : Tallies (gathered timestamp mode entries) entries :=
    (tallies_nil timestamp mode).addAll entries
  generalize gathered timestamp mode entries = r at htallies
  have hread : decode? r.encode = some r :=
    decode?_encode (htallies.files.symm ▸ hsizes) htallies.sum (htallies.total.symm ▸ hcount)
  have hparse : Json.parse? r.text = some r.encode :=
    parse?_pretty (r.storable_encode.mono (by decide))
  exact ⟨htallies, htallies.hasFailures, by rw [parse?, hparse, Option.bind_some, hread]⟩

/-- Outcomes with parts missing in every way, and with texts that have to be escaped. -/
def sundry : List Entry := [
  ⟨"", .compiled []⟩,
  ⟨"shop", .compiled [⟨"shop \"core\".sql", "", 18446744073709551615⟩, ⟨"\\", "\u0000é", 0⟩]⟩,
  ⟨"Bad Name", .skipped "'Bad Name'\n\t is not a valid schema name"⟩,
  ⟨"a", .failed (some .range) "größer als 5" (some ⟨some "a", none, some "c"⟩)⟩,
  ⟨"b", .failed (some .name) "" (some ⟨none, none, none⟩)⟩,
  ⟨"c", .failed none "disk full" none⟩]

theorem gathered_restored_sundry :
    (gathered "\u007f" "sql" sundry).summary = ⟨6, 2, 1, 3⟩ ∧
      Tallies (gathered "\u007f" "sql" sundry) sundry ∧
      ((gathered "\u007f" "sql" sundry).hasFailures ↔ ∃ e ∈ sundry, e.outcome.status = .failed) ∧
      parse? (gathered "\u007f" "sql" sundry).text = some (gathered "\u007f" "sql" sundry) :=
  ⟨rfl, gathered_restored _ _ _ (by decide) (by decide)⟩

end Report

end SchemaCompiler
