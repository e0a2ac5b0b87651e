/-!
# Words of 64 bits

The integers that a word of 64 bits holds, with a sign and without one.
-/

namespace SchemaCompiler

/-- A natural number as a word with a sign, which has to be able to hold it. -/
instance Word64.coeNat : Coe Nat Int64 := ⟨Int64.ofNat⟩

namespace Word64

/-- One more than the greatest integer with a sign, two to the power of 63. -/
def signedBound : Int := 9223372036854775808

/-- One more than the greatest integer without a sign, two to the power of 64. -/
def unsignedBound : Int := 18446744073709551616

/-- Whether a word with a sign holds an integer. -/
def fitsSigned (n : Int) : Bool :=
  -signedBound ≤ n && n < signedBound

/-- Whether a word without a sign holds an integer. -/
def fitsUnsigned (n : Int) : Bool :=
  0 ≤ n && n < unsignedBound

/-- The word with a sign that holds an integer, if one does. -/
def signed? (n : Int) : Option Int64 :=
  if fitsSigned n then some (.ofInt n) else none

/-- The word without a sign that holds a natural number, if one does. -/
def unsigned? (n : Nat) : Option UInt64 :=
  if fitsUnsigned n then some (.ofNat n) else none

/-- The distance of a word from zero, which the least word with a sign has too. -/
def unsignedAbs (n : Int64) : UInt64 :=
  n.abs.toUInt64

end Word64

end SchemaCompiler
