import SchemaCompiler.Column.OnDelete
import SchemaCompiler.Column.Validation
import SchemaCompiler.ForeignKey.Path

/-!
# Resolution of references

A reference becomes an integer column with the size, the sign and the bounds of its target, which may
itself be a reference. The columns that were not yet entered bound the search: entering one twice is a
cycle.
-/

namespace SchemaCompiler

/-! ## What a reference takes over -/

/-- The integer type that a reference to a column of some type has: a code is an unsigned number of one
byte, without its enumeration. -/
def ColumnType.referable? : ColumnType → Option (IntegerSize × Bool × Bounds)
  | .integer size unsigned _ bounds => some (size, unsigned, bounds)
  | .serial size bounds => some (size, true, bounds)
  | .code _ => some (.tiny, true, IntegerSize.tiny.bounds true)
  | _ => none

namespace ColumnDeclaration

/-- Whether the column refers to another one. -/
def isReference (c : ColumnDeclaration) : Bool :=
  ColumnKind.ofToken? c.kind = some .foreignKey

/-- The declared delete action, which has to be known and to fit the column. -/
def deleteAction (c : ColumnDeclaration) : Except Fault (Option OnDelete) :=
  match c.onDelete with
  | none => .ok none
  | some text =>
    match OnDelete.ofText? text with
    | none => .error (.unknownOnDelete text)
    | some action =>
      if action = .setNull ∧ c.nullable = false then .error .setNullWithoutNullable
      else .ok (some action)

/-- The column that a reference in `home` becomes, given what its target is. -/
def refer (c : ColumnDeclaration) (home : DatabaseDeclaration) (path : String) (target : Target)
    (resolved : Column) : Except Fault Column := do
  if resolved.nullable then throw (.nullableTarget path)
  match resolved.type.referable? with
  | none => throw (.unsuitableTarget path resolved.type.kind)
  | some (size, unsigned, bounds) =>
    let onDelete ← c.deleteAction
    let default ← integerDefault bounds (← c.scalarDefault)
    return {
      name := c.name
      nullable := c.nullable
      default := default
      type := .integer size unsigned false bounds
      foreignKey := some {
        database := target.database.name
        crossDatabase := target.database.name ≠ home.name
        table := target.table.name
        column := target.column.name
        onDelete := onDelete } }

end ColumnDeclaration

/-! ## Following references -/

namespace ForeignKey

/-- The places of all declared columns. -/
def places (databases : List DatabaseDeclaration) : List Location :=
  databases.flatMap fun d => d.tables.flatMap fun t => t.columns.map fun c =>
    .ofColumn d.name t.name c.name

/-- The places that remain when one is struck out. -/
def strike (place : Location) (listed : List Location) : List Location :=
  listed.filter (· ≠ place)

/-- Striking out a place that is listed leaves fewer places. -/
theorem length_strike_lt {listed : List Location} {place : Location} (h : place ∈ listed) :
    (strike place listed).length < listed.length :=
  List.length_filter_lt_length_iff_exists.mpr ⟨place, h, by simp⟩

/-- Resolves a reference, entering none but the places in `unvisited`. -/
def resolveFrom (databases : List DatabaseDeclaration) (unvisited : List Location)
    (home : DatabaseDeclaration) (c : ColumnDeclaration) : Except Failure Column :=
  match c.path with
  | none => .error { subject := .missingReferencePath }
  | some path =>
    match findTarget databases home path with
    | .error f => .error { subject := f }
    | .ok target =>
      if _entered : target.location ∈ unvisited then
        let resolved :=
          if target.column.isReference then
            resolveFrom databases (strike target.location unvisited) target.database target.column
          else
            Failure.unplaced target.column.validate
        match Failure.within target.location resolved with
        | .error e => .error e
        | .ok column => Failure.unplaced (c.refer home path target column)
      else
        .error { subject := .referenceCycle target.location }
termination_by unvisited.length
decreasing_by
  exact length_strike_lt _entered

/-- Resolves a reference that is declared in the database `home`. -/
def resolve (databases : List DatabaseDeclaration) (home : DatabaseDeclaration)
    (c : ColumnDeclaration) : Except Failure Column :=
  resolveFrom databases (places (home :: databases)) home c

end ForeignKey

end SchemaCompiler
