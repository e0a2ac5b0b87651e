import SchemaCompiler.Binary64

/-!
# Shortest decimals

The decimal with the fewest digits that reads back as a given double. Among decimals of that many
digits the nearest to the double is taken, a tie going to the even last digit.
-/

namespace SchemaCompiler

/-- The non-negative number `digits * 10 ^ exponent`. -/
structure Decimal where
  digits : Nat
  exponent : Int
deriving DecidableEq, Repr

namespace Decimal

/-- Moves trailing zeros of the digits into the exponent, at most `limit` of them. -/
def trim : (limit : Nat) → Decimal → Decimal
  | 0, d => d
  | limit + 1, d =>
    if d.digits ≠ 0 ∧ d.digits % 10 = 0 then trim limit ⟨d.digits / 10, d.exponent + 1⟩ else d

/-- The double that a decimal reads as. -/
def toBinary64? (negative : Bool) (d : Decimal) : Option Binary64 :=
  Binary64.ofDecimal? negative d.digits d.exponent

end Decimal

namespace Binary64

/-- The greatest `e` with `10 ^ e ≤ q`, for a positive `q`. -/
def floorLog10 (q : Rat) : Int :=
  let estimate : Int :=
    (Nat.toDigits 10 q.num.natAbs).length - (Nat.toDigits 10 q.den).length
  if (10 : Rat) ^ estimate ≤ q then estimate else estimate - 1

/-- The two neighbours of a magnitude on the grid of multiples of `10 ^ scale`, the nearer one first. -/
def neighbours (q : Rat) (scale : Int) : List Decimal :=
  let steps := q / 10 ^ scale
  let below := steps.floor.toNat
  if nearestEven steps = below then [⟨below, scale⟩, ⟨below + 1, scale⟩]
  else [⟨below + 1, scale⟩, ⟨below, scale⟩]

/-- A neighbour on the grid that reads back as the double. -/
def onGrid? (x : Binary64) (scale : Int) : Option Decimal :=
  (neighbours x.magnitude scale).find? fun d => d.toBinary64? x.negative = some x

/-- Every digit of the double's exact value. -/
def exactDecimal (x : Binary64) : Decimal :=
  if 0 ≤ x.exponent then ⟨x.mantissa * Nat.pow 2 x.exponent.toNat, 0⟩
  else ⟨x.mantissa * Nat.pow 5 (-x.exponent).toNat, x.exponent⟩

/-- The shortest decimal that reads back as the double. -/
def shortest (x : Binary64) : Decimal :=
  let top := floorLog10 x.magnitude
  let found := (List.range 17).findSome? fun (k : Nat) => x.onGrid? (top - k)
  Decimal.trim 17 (found.getD x.exactDecimal)

end Binary64

end SchemaCompiler
