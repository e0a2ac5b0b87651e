import SchemaCompiler.Fault

/-!
# Safe integers

Every number in a declaration is read here. It may be held as a word with a sign, as one without or as a
double, and each of these is checked in its own way: it has to be an integer that doubles hold exactly.
-/

namespace SchemaCompiler

/-- The greatest safe integer as a double. -/
def Binary64.maxSafe : Binary64 :=
  ⟨false, 9007199254740991, 0, by decide⟩

/-- The integer that a value of a field denotes. A double is finite, so that one without a fraction is an
integer. -/
def safeInteger (field : String) (v : Json) : Except Fault Int64 :=
  match v with
  | .number n =>
    match n.asInt64? with
    | some i =>
      if maxSafeInteger.toUInt64 < Word64.unsignedAbs i then .error (.unsafeInteger field n) else .ok i
    | none =>
      if n.isUInt64 then .error (.unsafeInteger field n)
      else
        match n.asBinary64? with
        | some x =>
          if x.hasFraction then .error (.notInteger field v)
          else if x.abs.isAtMost .maxSafe then .ok x.toInt64
          else .error (.unsafeInteger field n)
        | none => .error (.unsafeInteger field n)
  | _ => .error (.notInteger field v)

/-- A value of a field that has to lie within bounds. -/
def within (bounds : Bounds) (field : String) (n : Int64) : Except Fault Int64 :=
  if bounds.contains n then .ok n else .error (.outsideBounds field n bounds)

/-- The integer within bounds that a value of a field denotes. -/
def safeIntegerWithin (bounds : Bounds) (field : String) (v : Json) : Except Fault Int64 := do
  within bounds field (← safeInteger field v)

/-- The positive integer that a value of a field denotes. -/
def positiveInteger (field : String) (v : Json) : Except Fault Int64 :=
  safeIntegerWithin ⟨1, maxSafeInteger⟩ field v

end SchemaCompiler
