import SchemaCompiler.Declaration.Basic
import SchemaCompiler.Fault
import Mathlib.Data.List.Forall2

/-! # Declarations that differ in how numbers are held

A number may be held as a word with or without a sign or as a double, and a double may carry a sign on its
zero. Two values are alike when only this tells them apart, and so are declarations made of them. -/

namespace SchemaCompiler

/-- Values that differ at most in how their numbers are held. -/
inductive Json.Alike : Json → Json → Prop where
  | null : Alike .null .null
  | bool {b : Bool} : Alike (.bool b) (.bool b)
  | number {x y : Number} (h : x.value = y.value) : Alike (.number x) (.number y)
  | string {s : String} : Alike (.string s) (.string s)
  | array {items items' : List Json} (h : List.Forall₂ Alike items items') :
      Alike (.array items) (.array items')
  | object {members members' : List (String × Json)}
      (hkeys : members.map Prod.fst = members'.map Prod.fst)
      (h : List.Forall₂ Alike (members.map Prod.snd) (members'.map Prod.snd)) :
      Alike (.object members) (.object members')

structure CodeDeclaration.Alike (d d' : CodeDeclaration) : Prop where
  code : d.code.Alike d'.code
  value : d.value = d'.value

structure ColumnDeclaration.Alike (c c' : ColumnDeclaration) : Prop where
  name : c.name = c'.name
  kind : c.kind = c'.kind
  nullable : c.nullable = c'.nullable
  defaultValue : Option.Rel Json.Alike c.defaultValue c'.defaultValue
  size : c.size = c'.size
  unsigned : c.unsigned = c'.unsigned
  autoIncrement : c.autoIncrement = c'.autoIncrement
  minValue : Option.Rel Json.Alike c.minValue c'.minValue
  maxValue : Option.Rel Json.Alike c.maxValue c'.maxValue
  minLength : Option.Rel Json.Alike c.minLength c'.minLength
  maxLength : Option.Rel Json.Alike c.maxLength c'.maxLength
  minSize : Option.Rel Json.Alike c.minSize c'.minSize
  maxSize : Option.Rel Json.Alike c.maxSize c'.maxSize
  values : Option.Rel (List.Forall₂ CodeDeclaration.Alike) c.values c'.values
  path : c.path = c'.path
  onDelete : c.onDelete = c'.onDelete

structure TableDeclaration.Alike (t t' : TableDeclaration) : Prop where
  name : t.name = t'.name
  kind : t.kind = t'.kind
  columns : List.Forall₂ ColumnDeclaration.Alike t.columns t'.columns
  indexes : t.indexes = t'.indexes

structure DatabaseDeclaration.Alike (d d' : DatabaseDeclaration) : Prop where
  name : d.name = d'.name
  kind : d.kind = d'.kind
  tables : List.Forall₂ TableDeclaration.Alike d.tables d'.tables

def Document.Alike (d d' : Document) : Prop :=
  List.Forall₂ DatabaseDeclaration.Alike d.databases d'.databases

/-! ## Faults -/

/-- Faults that are reported under one kind. -/
def Fault.Alike (f f' : Fault) : Prop :=
  f.kind = f'.kind

/-- Failures that are reported under one kind and at one place. -/
structure Failure.Alike (e e' : Failure) : Prop where
  kind : e.subject.kind = e'.subject.kind
  location : e.location = e'.location

end SchemaCompiler
