import SchemaCompiler.Binary64

/-!
# Arithmetic of doubles

An operation on doubles gives the double nearest to the exact result; there is none when the result is too
large.
-/

namespace SchemaCompiler

namespace Binary64

/-- The product of two doubles. -/
def mul? (x y : Binary64) : Option Binary64 :=
  ofMagnitude? (x.negative != y.negative) (x.magnitude * y.magnitude)

/-- The quotient of two doubles, of which the second is not zero. -/
def div? (x y : Binary64) : Option Binary64 :=
  ofMagnitude? (x.negative != y.negative) (x.magnitude / y.magnitude)

end Binary64

end SchemaCompiler
