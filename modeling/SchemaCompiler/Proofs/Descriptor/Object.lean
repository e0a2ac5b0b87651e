import SchemaCompiler.Descriptor.Rendering
import SchemaCompiler.Proofs.Column.Validity
import SchemaCompiler.Proofs.EsModule.Evaluation
import SchemaCompiler.Proofs.EsModule.Token

/-! # Descriptors as objects

What the records of a descriptor are on the heap of a module. All objects are frozen, so a record that lies
there stays there. -/

namespace SchemaCompiler

namespace EsModule

/-- A frozen object with the ordinary prototype that has exactly these properties, each of them once. -/
structure Heap.IsFrozen (heap : Heap) (a : Address) (properties : Properties) : Prop where
  object : heap[a]? = some (.record properties none true)
  distinct : (properties.map Prod.fst).Nodup

/-- A property that holds an object of some sort. -/
inductive Datum.PointsAt (P : Address → Prop) : Datum → Prop where
  | object {a} (h : P a) : PointsAt P (.object a)

/-- One property for each item, under its key, that stands for the item. -/
def Represents {α : Type} (R : α → Datum → Prop) : List (String × α) → Properties → Prop :=
  List.Forall₂ fun item property => property.1 = item.1 ∧ R item.2 property.2

end EsModule

namespace Descriptor

open EsModule

/-! ## Records on the heap -/

def Scalar.datum : Scalar → Datum
  | .bool b => .bool b
  | .int n => .number n.toInt
  | .string s => .string s

/-- The properties that every object starts with. -/
def headerProperties (objectType name : String) : Properties :=
  [("_objectType", .string objectType), ("_name", .string name)]

/-- An object has its type, its name, one property for each item under its key, and nothing else. -/
def Describes {α : Type} (heap : Heap) (objectType name : String) (R : α → Datum → Prop)
    (items : List (String × α)) (a : Address) : Prop :=
  ∃ properties, heap.IsFrozen a (headerProperties objectType name ++ properties) ∧
    Represents R items properties

/-- What a field of a column is, given where the column's table lies. -/
inductive Field.Denotes (heap : Heap) (table : Address) : Field → Datum → Prop where
  | scalar {s : Scalar} : Denotes heap table (.scalar s) s.datum
  | table : Denotes heap table .table (.object table)
  | lookup {entries : List (String × Scalar)} {a : Address}
      (h : heap.IsFrozen a (entries.map fun (key, s) => (key, s.datum))) :
      Denotes heap table (.lookup entries) (.object a)
  | list {items : List Scalar} {a : Address}
      (h : heap[a]? = some (.array (items.map Scalar.datum) true)) :
      Denotes heap table (.list items) (.object a)

def ColumnRecord.IsAt (heap : Heap) (table : Address) (c : ColumnRecord) (a : Address) : Prop :=
  Describes heap "column" c.name (Field.Denotes heap table) c.fields a

/-- Columns under their names. -/
def TableRecord.items (t : TableRecord) : List (String × ColumnRecord) :=
  t.columns.map fun c => (c.name, c)

/-- The columns of a table's object refer back to that object. -/
def TableRecord.IsAt (heap : Heap) (t : TableRecord) (a : Address) : Prop :=
  Describes heap "table" t.name (fun c => Datum.PointsAt (c.IsAt heap a)) t.items a

/-- Tables under their names. -/
def DatabaseRecord.items (d : DatabaseRecord) : List (String × TableRecord) :=
  d.tables.map fun t => (t.name, t)

def DatabaseRecord.IsAt (heap : Heap) (d : DatabaseRecord) (a : Address) : Prop :=
  Describes heap "database" d.name (fun t => Datum.PointsAt (t.IsAt heap)) d.items a

/-- Databases under the names that they are exported by. -/
def items (d : Descriptor) : List (String × DatabaseRecord) :=
  d.databases.map fun r => (r.namespaceName, r)

/-- An object that has one property for each database and nothing else. -/
def IsAt (heap : Heap) (d : Descriptor) (a : Address) : Prop :=
  ∃ properties, heap.IsFrozen a properties ∧
    Represents (fun r => Datum.PointsAt (r.IsAt heap)) d.items properties

/-! ## Records stay where they are -/

section Extension

variable {heap heap' : Heap} {a table : Address}

theorem isFrozen_extends (he : heap.Extends heap') {properties : Properties}
    (h : heap.IsFrozen a properties) : heap'.IsFrozen a properties :=
  ⟨he a _ h.object rfl, h.distinct⟩

theorem represents_imp {α : Type} {R S : α → Datum → Prop} {items : List (String × α)}
    {properties : Properties} (himp : ∀ x datum, R x datum → S x datum)
    (h : Represents R items properties) : Represents S items properties :=
  h.imp fun _ _ hitem => ⟨hitem.1, himp _ _ hitem.2⟩

theorem pointsAt_imp {P Q : Address → Prop} {datum : Datum} (himp : ∀ a, P a → Q a)
    (h : datum.PointsAt P) : datum.PointsAt Q := by
  cases h with
  | object h => exact .object (himp _ h)

theorem describes_extends {α : Type} {objectType name : String} {R S : α → Datum → Prop}
    {items : List (String × α)} (he : heap.Extends heap') (himp : ∀ x datum, R x datum → S x datum)
    (h : Describes heap objectType name R items a) : Describes heap' objectType name S items a := by
  obtain ⟨properties, hfrozen, hitems⟩ := h
  exact ⟨properties, isFrozen_extends he hfrozen, represents_imp himp hitems⟩

theorem Field.Denotes.extends (he : heap.Extends heap') {f : Field} {datum : Datum}
    (h : f.Denotes heap table datum) : f.Denotes heap' table datum := by
  cases h with
  | scalar => exact .scalar
  | table => exact .table
  | lookup h => exact .lookup (isFrozen_extends he h)
  | list h => exact .list (he _ _ h rfl)

theorem ColumnRecord.IsAt.extends (he : heap.Extends heap') {c : ColumnRecord}
    (h : c.IsAt heap table a) : c.IsAt heap' table a :=
  describes_extends he (fun _ _ => Field.Denotes.extends he) h

theorem TableRecord.IsAt.extends (he : heap.Extends heap') {t : TableRecord}
    (h : t.IsAt heap a) : t.IsAt heap' a :=
  describes_extends he (fun _ _ => pointsAt_imp fun _ => ColumnRecord.IsAt.extends he) h

theorem DatabaseRecord.IsAt.extends (he : heap.Extends heap') {d : DatabaseRecord}
    (h : d.IsAt heap a) : d.IsAt heap' a :=
  describes_extends he (fun _ _ => pointsAt_imp fun _ => TableRecord.IsAt.extends he) h

end Extension

/-! ## Legal records -/

/-- Keys that may stand behind the type and the name of an object. -/
structure LegalKeys (keys : List String) : Prop where
  words : ∀ key ∈ keys, Token.IsWord key
  distinct : ("_objectType" :: "_name" :: keys).Nodup
  prototype : prototypeKey ∉ keys

/-- A scalar that a program reads as it was written. -/
def Scalar.IsExact : Scalar → Prop
  | .bool _ => True
  | .int n => IsSafeInteger n
  | .string _ => True

def Field.IsLegal : Field → Prop
  | .scalar s => s.IsExact
  | .table => True
  | .lookup entries => (entries.map Prod.fst).Nodup ∧ prototypeKey ∉ entries.map Prod.fst ∧
      ∀ entry ∈ entries, entry.2.IsExact
  | .list items => ∀ s ∈ items, s.IsExact

structure ColumnRecord.IsLegal (c : ColumnRecord) : Prop where
  keys : LegalKeys (c.fields.map Prod.fst)
  fields : ∀ field ∈ c.fields, field.2.IsLegal

structure TableRecord.IsLegal (t : TableRecord) : Prop where
  keys : LegalKeys (t.columns.map (·.name))
  columns : ∀ c ∈ t.columns, c.IsLegal

structure DatabaseRecord.IsLegal (d : DatabaseRecord) : Prop where
  keys : LegalKeys (d.tables.map (·.name))
  tables : ∀ t ∈ d.tables, t.IsLegal

structure IsLegal (d : Descriptor) : Prop where
  kinds : ∀ r ∈ d.databases, r.namespaceName = "core" ∨ r.namespaceName = "inst"
  distinct : (d.databases.map (·.namespaceName)).Nodup
  databases : ∀ r ∈ d.databases, r.IsLegal

end Descriptor

end SchemaCompiler
