import SchemaCompiler.Binary64
import SchemaCompiler.Word64

/-!
# Doubles and integers

What stands in front of the point of a double and what stands behind it, the order of doubles, and the
conversions between doubles and words. All of it is told from the mantissa and the exponent.
-/

namespace SchemaCompiler

namespace Binary64

/-! ## Parts -/

/-- The digits in front of the point. -/
def whole (x : Binary64) : Nat :=
  if 0 ≤ x.exponent then x.mantissa <<< x.exponent.toNat else x.mantissa >>> (-x.exponent).toNat

/-- The integer in front of the point, with its sign. -/
def signedWhole (x : Binary64) : Int :=
  if x.negative then -x.whole else x.whole

/-- Whether there are digits behind the point. -/
def hasFraction (x : Binary64) : Bool :=
  x.exponent < 0 && x.whole <<< (-x.exponent).toNat ≠ x.mantissa

/-! ## Order -/

/-- Whether a double is no farther from zero than another one. As both are canonical, the exponents decide,
and the mantissas only where these are equal. -/
def isWithin (x y : Binary64) : Bool :=
  x.exponent < y.exponent || x.exponent = y.exponent && x.mantissa ≤ y.mantissa

/-- Whether a double is no greater than another one; both zeros are alike. -/
def isAtMost (x y : Binary64) : Bool :=
  match x.negative, y.negative with
  | false, false => x.isWithin y
  | true, true => y.isWithin x
  | true, false => true
  | false, true => x.mantissa = 0 && y.mantissa = 0

/-! ## Words -/

/-- The word next to a double on the way to zero, or the one nearest to it if the double is too large. -/
def toInt64 (x : Binary64) : Int64 :=
  .ofIntClamp x.signedWhole

/-- The double nearest to a word. -/
def ofInt64? (n : Int64) : Option Binary64 :=
  ofMagnitude? (decide (n < 0)) n.toInt.natAbs

/-- The double nearest to a word without a sign. -/
def ofUInt64? (n : UInt64) : Option Binary64 :=
  ofMagnitude? false n.toNat

end Binary64

end SchemaCompiler
