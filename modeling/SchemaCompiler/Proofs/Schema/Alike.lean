import SchemaCompiler.Proofs.Column.Alike
import SchemaCompiler.Proofs.Schema.Compilation
import Mathlib

/-! # Compilation sees the values of numbers

Documents that differ only in how numbers are held are compiled to the same schema, or fail for the same
kind of reason at the same place. The rules of columns give this for what is declared directly; from there
it is carried along references and up through tables and databases. -/

namespace SchemaCompiler

/-! ## Failures -/

theorem Failure.Alike.refl (e : Failure) : Failure.Alike e e :=
  ⟨rfl, rfl⟩

theorem Failure.unplaced_alike {α β : Type} {V : α → β → Prop} {x : Except Fault α}
    {x' : Except Fault β} (h : Paired Fault.Alike V x x') :
    Paired Failure.Alike V (Failure.unplaced x) (Failure.unplaced x') := by
  cases h with
  | ok h => exact .ok h
  | error h => exact .error ⟨h, rfl⟩

theorem Failure.within_alike {α β : Type} {V : α → β → Prop} {x : Except Failure α}
    {x' : Except Failure β} {place : Location} (h : Paired Failure.Alike V x x') :
    Paired Failure.Alike V (Failure.within place x) (Failure.within place x') := by
  cases h with
  | ok h => exact .ok h
  | @error e e' h =>
      refine .error ⟨?_, by simp [h.location]⟩
      rw [Located.subject_locate, Located.subject_locate]
      exact h.kind

/-! ## Targets -/

structure Target.Alike (t t' : Target) : Prop where
  database : t.database.Alike t'.database
  table : t.table.Alike t'.table
  column : t.column.Alike t'.column

variable {databases databases' : List DatabaseDeclaration} {home home' : DatabaseDeclaration}

theorem Target.Alike.location {t t' : Target} (h : t.Alike t') : t.location = t'.location := by
  simp only [Target.location, h.database.name, h.table.name, h.column.name]

theorem Target.find_alike (h : home.Alike home') (table column : String) :
    Paired Fault.Alike Target.Alike (Target.find home table column)
      (Target.find home' table column) := by
  have htable := find?_forall₂ h.tables (fun _ _ ht => ht.name) table
  unfold Target.find DatabaseDeclaration.table?
  generalize home.tables.find? _ = t, home'.tables.find? _ = t' at htable
  cases htable with
  | none => exact .error rfl
  | @some t t' ht =>
      have hcolumn := find?_forall₂ ht.columns (fun _ _ hc => hc.name) column
      unfold TableDeclaration.column?
      dsimp only
      generalize t.columns.find? _ = c, t'.columns.find? _ = c' at hcolumn
      cases hcolumn with
      | none => exact .error rfl
      | some hc => exact .ok ⟨h, ht, hc⟩

theorem findDatabase_alike (h : List.Forall₂ DatabaseDeclaration.Alike databases databases')
    (segment : String) : Paired Fault.Alike DatabaseDeclaration.Alike
      (findDatabase databases segment) (findDatabase databases' segment) := by
  have hname := find?_forall₂ h (fun _ _ hd => hd.name) segment
  have hkind := find?_forall₂ h (fun _ _ hd => hd.kind) segment
  unfold findDatabase
  generalize databases.find? (·.name = segment) = d, databases'.find? (·.name = segment) = d' at hname
  cases hname with
  | some hd => exact .ok hd
  | none =>
      dsimp only
      generalize databases.find? _ = d, databases'.find? _ = d' at hkind
      cases hkind with
      | some hd => exact .ok hd
      | none => exact .error rfl

theorem findTarget_alike (h : List.Forall₂ DatabaseDeclaration.Alike databases databases')
    (hhome : home.Alike home') (path : String) : Paired Fault.Alike Target.Alike
      (findTarget databases home path) (findTarget databases' home' path) := by
  unfold findTarget
  generalize Text.dotted path = segments
  match segments with
  | [table, column] => exact Target.find_alike hhome table column
  | [database, table, column] =>
      exact (findDatabase_alike h database).bind fun _ _ hd => Target.find_alike hd table column
  | [] | [_] | _ :: _ :: _ :: _ :: _ => exact .error rfl

/-! ## References -/

namespace ColumnDeclaration

variable {c c' : ColumnDeclaration}

theorem Alike.isReference (h : c.Alike c') : c.isReference = c'.isReference := by
  simp only [ColumnDeclaration.isReference, h.kind]

theorem Alike.deleteAction (h : c.Alike c') : c.deleteAction = c'.deleteAction := by
  simp only [ColumnDeclaration.deleteAction, h.onDelete, h.nullable]

theorem Alike.refer (h : c.Alike c') (hhome : home.Alike home') {t t' : Target} (ht : t.Alike t')
    (path : String) (resolved : Column) : Paired Fault.Alike Eq (c.refer home path t resolved)
      (c'.refer home' path t' resolved) := by
  simp only [ColumnDeclaration.refer, h.name, h.nullable, h.deleteAction, hhome.name,
    ht.database.name, ht.table.name, ht.column.name]
  apply Paired.guard Iff.rfl (Fault.Alike.refl _)
  cases resolved.type.referable? with
  | none => exact .error rfl
  | some inherited =>
      apply (Paired.rfl Fault.Alike.refl).bindEq
      intro action
      apply h.scalarDefault.bind
      intro declared declared' hdeclared
      exact (integerDefault_alike hdeclared).bindEq fun _ => .ok rfl

end ColumnDeclaration

namespace ForeignKey

theorem places_alike (h : List.Forall₂ DatabaseDeclaration.Alike databases databases') :
    places databases = places databases' := by
  simp only [places, List.flatMap_def]
  congr 1
  refine map_eq_map_of_forall₂ h fun d d' hd => ?_
  congr 1
  refine map_eq_map_of_forall₂ hd.tables fun t t' ht => ?_
  rw [hd.name, ht.name]
  exact map_eq_map_of_forall₂ ht.columns fun c c' hc => by rw [hc.name]

theorem resolveFrom_alike (hdatabases : List.Forall₂ DatabaseDeclaration.Alike databases databases')
    (hhome : home.Alike home') {c c' : ColumnDeclaration} (hc : c.Alike c')
    {unvisited : List Location} : Paired Failure.Alike Eq
      (resolveFrom databases unvisited home c) (resolveFrom databases' unvisited home' c') := by
  -- both searches strike out the same places
  induction hlength : unvisited.length using Nat.strongRecOn
    generalizing unvisited home home' c c' with
  | _ length ih =>
      cases hpath : c.path with
      | none =>
          rw [resolveFrom, resolveFrom, hpath, hc.path.symm.trans hpath]
          exact .error (.refl _)
      | some path =>
          rw [resolveFrom_of_path hpath, resolveFrom_of_path (hc.path.symm.trans hpath)]
          apply (Failure.unplaced_alike (findTarget_alike hdatabases hhome path)).bind
          intro t t' ht
          rw [ht.location]
          by_cases hentered : t'.location ∈ unvisited
          · rw [if_pos hentered, if_pos hentered]
            have henter : Paired Failure.Alike Eq (enter databases unvisited t)
                (enter databases' unvisited t') := by
              unfold enter
              rw [ht.column.isReference, ht.location]
              split
              · exact ih _ (hlength ▸ length_strike_lt hentered) ht.database ht.column rfl
              · exact Failure.unplaced_alike ht.column.validate
            exact (Failure.within_alike henter).bindEq fun resolved =>
              Failure.unplaced_alike (hc.refer hhome ht path resolved)
          · rw [if_neg hentered, if_neg hentered]
            exact .error (.refl _)

theorem resolve_alike (hdatabases : List.Forall₂ DatabaseDeclaration.Alike databases databases')
    (hhome : home.Alike home') {c c' : ColumnDeclaration} (hc : c.Alike c') :
    Paired Failure.Alike Eq (resolve databases home c) (resolve databases' home' c') := by
  rw [resolve, resolve, places_alike (.cons hhome hdatabases)]
  exact resolveFrom_alike hdatabases hhome hc

end ForeignKey

/-! ## Columns and tables -/

theorem ColumnDeclaration.Alike.compile {c c' : ColumnDeclaration} (hc : c.Alike c')
    (hdatabases : List.Forall₂ DatabaseDeclaration.Alike databases databases')
    (hhome : home.Alike home') :
    Paired Failure.Alike Eq (c.compile databases home) (c'.compile databases' home') := by
  unfold ColumnDeclaration.compile
  rw [hc.name, hc.knownKind]
  apply (Paired.rfl Failure.Alike.refl).bindEq
  intro _
  apply (Paired.rfl Failure.Alike.refl).bindEq
  intro kind
  cases kind with
  | foreignKey => exact ForeignKey.resolve_alike hdatabases hhome hc
  | integer | serial | timestamp | string | binary | boolean | code =>
      exact Failure.unplaced_alike (hc.rule _)

namespace TableDeclaration.Alike

variable {t t' : TableDeclaration}

theorem compileColumns (ht : t.Alike t')
    (hdatabases : List.Forall₂ DatabaseDeclaration.Alike databases databases')
    (hhome : home.Alike home') : Paired Failure.Alike Eq (t.compileColumns databases home)
      (t'.compileColumns databases' home') := by
  rw [TableDeclaration.compileColumns, TableDeclaration.compileColumns, hhome.name, ht.name]
  refine (Paired.compileDistinct (ht.columns.imp fun c c' hc => ⟨hc.name, ?_, ?_⟩)).ofForall₂
  · simp only [hc.name]
    exact .refl _
  · simp only [hc.name]
    exact Failure.within_alike (hc.compile hdatabases hhome)

theorem compile (ht : t.Alike t')
    (hdatabases : List.Forall₂ DatabaseDeclaration.Alike databases databases')
    (hhome : home.Alike home') :
    Paired Failure.Alike Eq (t.compile databases home) (t'.compile databases' home') := by
  simp only [TableDeclaration.compile, ht.name, ht.kind, ht.indexes]
  apply (Paired.rfl Failure.Alike.refl).bindEq
  intro _
  apply Paired.guard Iff.rfl (Failure.Alike.refl _)
  apply (ht.compileColumns hdatabases hhome).bindEq
  intro columns
  exact .rfl Failure.Alike.refl

end TableDeclaration.Alike

/-! ## Databases -/

namespace DatabaseDeclaration.Alike

variable {d d' : DatabaseDeclaration} {before before' : List DatabaseDeclaration}

theorem knownKind (h : d.Alike d') : d.knownKind = d'.knownKind := by
  simp only [DatabaseDeclaration.knownKind, h.kind]

/-- Whether a database repeats another one is a matter of names and types. -/
theorem check (h : d.Alike d') (hbefore : List.Forall₂ DatabaseDeclaration.Alike before before') :
    d.check before = d'.check before' := by
  have hnames : before.map (·.name) = before'.map (·.name) :=
    map_eq_map_of_forall₂ hbefore fun _ _ hd => hd.name
  have hkinds : before.map (·.kind) = before'.map (·.kind) :=
    map_eq_map_of_forall₂ hbefore fun _ _ hd => hd.kind
  have hname : before.any (·.name = d'.name) = before'.any (·.name = d'.name) := by
    simpa only [List.any_map, Function.comp_def] using
      congrArg (List.any · (· = d'.name)) hnames
  have hkind : before.any (·.kind = d'.kind) = before'.any (·.kind = d'.kind) := by
    simpa only [List.any_map, Function.comp_def] using
      congrArg (List.any · (· = d'.kind)) hkinds
  simp only [DatabaseDeclaration.check, h.name, h.kind, h.knownKind, hname, hkind]

theorem checkAll {rest rest' : List DatabaseDeclaration}
    (hbefore : List.Forall₂ DatabaseDeclaration.Alike before before')
    (h : List.Forall₂ DatabaseDeclaration.Alike rest rest') :
    checkAll before rest = checkAll before' rest' := by
  induction h generalizing before before' with
  | nil => rfl
  | @cons d d' rest rest' hd _ ih =>
      have hlocation : d.location = d'.location := congrArg Location.ofDatabase hd.name
      rw [DatabaseDeclaration.checkAll, DatabaseDeclaration.checkAll, hlocation, hd.check hbefore,
        ih (List.rel_append hbefore (.cons hd .nil))]

theorem compile (h : d.Alike d')
    (hdatabases : List.Forall₂ DatabaseDeclaration.Alike databases databases') :
    Paired Failure.Alike Eq (d.compile databases) (d'.compile databases') := by
  simp only [DatabaseDeclaration.compile, h.knownKind, h.name]
  apply (Paired.rfl Failure.Alike.refl).bindEq
  intro kind
  refine (Paired.compileDistinct (h.tables.imp fun t t' ht => ⟨ht.name, ?_, ?_⟩)).ofForall₂.bindEq
    fun tables => .ok rfl
  · rw [ht.name]
    exact .refl _
  · rw [ht.name]
    exact Failure.within_alike (ht.compile hdatabases h)

end DatabaseDeclaration.Alike

/-! ## Documents -/

theorem Document.compile_alike {d d' : Document} (h : d.Alike d') :
    Paired Failure.Alike Eq d.compile d'.compile := by
  simp only [Document.compile]
  apply Paired.guard (by rw [h.length_eq]) (by rw [h.length_eq]; exact .refl _)
  rw [DatabaseDeclaration.Alike.checkAll .nil h]
  apply (Paired.rfl Failure.Alike.refl).bindEq
  intro _
  refine (Paired.mapM (h.imp fun _ _ hd => hd.compile h)).ofForall₂.bindEq fun _ => .ok rfl

/-- Numbers matter only by their values: so they are read wherever they stand, and documents that differ
in how numbers are held compile to the same schema or fail alike. -/
theorem Document.compile_numbers_by_value :
    (∀ field v, ReadsByValue v (safeInteger field v)) ∧
      ∀ d d' : Document, d.Alike d' → Paired Failure.Alike Eq d.compile d'.compile :=
  ⟨safeInteger_readsByValue, fun _ _ => compile_alike⟩

/-! ## A document with numbers in all places -/

/-- A document that declares two numbers wherever there is room for one. -/
def Document.measured (three zero : Json) : Document where
  databases := [
    { name := "depot", kind := "fixed", tables := [{ name := "crates", columns := [
        { name := "weight", kind := "integer", size := some "INT", minValue := some zero,
          maxValue := some three, defaultValue := some three },
        { name := "sealed", kind := "boolean", defaultValue := some zero },
        { name := "label", kind := "string", minLength := some three, maxLength := some three },
        { name := "seal", kind := "binary", minSize := some three, maxSize := some three },
        { name := "state", kind := "code", values := some [⟨three, "FULL"⟩, ⟨zero, "EMPTY"⟩],
          defaultValue := some zero },
        { name := "spare", kind := "FK", path := some "crates.state",
          defaultValue := some three }] }] }]

theorem Document.measured_alike {three three' zero zero' : Json} (hthree : three.Alike three')
    (hzero : zero.Alike zero') : (measured three zero).Alike (measured three' zero') := by
  unfold Document.Alike
  repeat' first | rfl | assumption | constructor

/-- An integer may be held as a double of its value. -/
theorem Json.int_alike_real {n : Int64} {x : Binary64} (h : x.toRat = n.toInt) :
    (Json.int n).Alike (.number (.real x)) :=
  .number ((Number.value_ofInt64 n).trans h.symm)

/-- Three as a double. -/
def Binary64.three : Binary64 := ⟨false, 6755399441055744, -51, by decide⟩

theorem Document.compile_numbers_by_value_measured :
    (∃ s, (measured (.int 3) (.int 0)).compile = .ok s) ∧
      (measured (.int 3) (.int 0)).Alike
        (measured (.number (.real .three)) (.number (.real (.zero true)))) ∧
      Paired Failure.Alike Eq (measured (.int 3) (.int 0)).compile
        (measured (.number (.real .three)) (.number (.real (.zero true)))).compile := by
  have hthree : Binary64.three.toRat = (3 : Int) := by
    norm_num [Binary64.toRat, Binary64.magnitude, Binary64.three]
  have hzero : (Binary64.zero true).toRat = (0 : Int) := by
    norm_num [Binary64.toRat, Binary64.magnitude, Binary64.zero]
  have halike :=
    measured_alike (Json.int_alike_real (n := 3) hthree) (Json.int_alike_real (n := 0) hzero)
  exact ⟨⟨_, by cbv⟩, halike, compile_numbers_by_value.2 _ _ halike⟩

end SchemaCompiler
