/-!
# Double-precision numbers

A finite double is held exactly, as a sign and `mantissa * 2 ^ exponent` with one canonical choice of
the two. Rounding takes an exact magnitude to the nearest double, a tie going to the even mantissa.
-/

namespace SchemaCompiler

/-- One more than the greatest mantissa, two to the power of 53. -/
def Binary64.mantissaBound : Nat := 9007199254740992

/-- The least mantissa of a normal double, two to the power of 52. -/
def Binary64.normalMantissa : Nat := 4503599627370496

/-- A finite double: normal with 53 significant bits, or subnormal at the least exponent. -/
structure Binary64 where
  negative : Bool
  mantissa : Nat
  exponent : Int
  canonical :
    mantissa < Binary64.mantissaBound ∧ -1074 ≤ exponent ∧ exponent ≤ 971 ∧
      (Binary64.normalMantissa ≤ mantissa ∨ exponent = -1074)
deriving DecidableEq, Repr

namespace Binary64

/-! ## Exact value -/

/-- The distance from zero. -/
def magnitude (x : Binary64) : Rat :=
  x.mantissa * 2 ^ x.exponent

/-- The rational number that a double stands for; both zeros stand for zero. -/
def toRat (x : Binary64) : Rat :=
  if x.negative then -x.magnitude else x.magnitude

/-- The same distance from zero on the positive side. -/
def abs (x : Binary64) : Binary64 :=
  { x with negative := false }

/-- Zero, with a sign of its own. -/
def zero (negative : Bool) : Binary64 :=
  ⟨negative, 0, -1074, by decide⟩

/-! ## Rounding -/

/-- The nearest natural number to a non-negative rational, a tie going to the even one. -/
def nearestEven (q : Rat) : Nat :=
  let below := q.floor.toNat
  let excess := q - below
  if excess < 1 / 2 then below
  else if 1 / 2 < excess then below + 1
  else if below % 2 = 0 then below
  else below + 1

/-- The greatest `e` with `2 ^ e ≤ q`, for a positive `q`. -/
def floorLog2 (q : Rat) : Int :=
  let estimate : Int := q.num.natAbs.log2 - q.den.log2
  if (2 : Rat) ^ estimate ≤ q then estimate else estimate - 1

/-- The exponent at which a magnitude is rounded: 53 significant bits, or the least exponent. -/
def roundingExponent (q : Rat) : Int :=
  if q = 0 then -1074 else max (-1074) (floorLog2 q - 52)

/-- The double nearest to a signed magnitude; there is none when it rounds past the greatest one. -/
def ofMagnitude? (negative : Bool) (q : Rat) : Option Binary64 :=
  let exponent := roundingExponent q
  let mantissa := nearestEven (q / 2 ^ exponent)
  let carried : Nat × Int :=
    if mantissa = mantissaBound then (normalMantissa, exponent + 1) else (mantissa, exponent)
  if h : carried.1 < mantissaBound ∧ -1074 ≤ carried.2 ∧ carried.2 ≤ 971 ∧
      (normalMantissa ≤ carried.1 ∨ carried.2 = -1074) then
    some ⟨negative, carried.1, carried.2, h⟩
  else
    none

/-- The double nearest to `digits * 10 ^ exponent`. Magnitudes far outside the range of doubles are
settled by their size alone, so a large exponent costs nothing. -/
def ofDecimal? (negative : Bool) (digits : Nat) (exponent : Int) : Option Binary64 :=
  let size := exponent + (Nat.toDigits 10 digits).length
  if digits = 0 ∨ size < -400 then some (zero negative)
  else if 400 < size then none
  else ofMagnitude? negative (digits * 10 ^ exponent)

end Binary64

end SchemaCompiler
