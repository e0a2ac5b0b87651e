import SchemaCompiler.Binary64.Arithmetic
import SchemaCompiler.Json.Number

/-!
# Reading doubles

The digits of a literal are gathered in a word as long as they fit, and the word is scaled by a power of
ten. That is fast, but not exact: the word, the power and the result are each rounded, so that a literal is
not always read as the double nearest to it.
-/

namespace SchemaCompiler

namespace Json

/-- Appends digits to a number as long as a word holds it. What is left are the other digits. -/
def gatherDigits (n : Nat) : List Char → Nat × List Char
  | [] => (n, [])
  | c :: rest =>
    let next := 10 * n + (c.toNat - '0'.toNat)
    if Word64.fitsUnsigned next then gatherDigits next rest else (n, c :: rest)

/-- The exponent of the greatest power of ten that is a double. -/
def maxPower : Nat := 308

/-- The double nearest to a power of ten. -/
def powerOfTen? (exponent : Nat) : Option Binary64 :=
  Binary64.ofMagnitude? false (Nat.pow 10 exponent)

/-- Divides a double by the greatest power of ten so many times, unless nothing is left of it. -/
def lower? (x : Binary64) : (times : Nat) → Option Binary64
  | 0 => some x
  | times + 1 =>
    if x.mantissa = 0 then some x
    else do
      let lowered ← x.div? (← powerOfTen? maxPower)
      lower? lowered times

/-- A double times a power of ten. -/
def scale? (x : Binary64) (exponent : Int) : Option Binary64 :=
  let power := exponent.natAbs
  if 0 ≤ exponent then
    if power ≤ maxPower then do x.mul? (← powerOfTen? power)
    else if x.mantissa = 0 then some x
    else none
  else do
    let times := (power - 1) / maxPower
    let lowered ← lower? x times
    lowered.div? (← powerOfTen? (power - maxPower * times))

/-- The double for a literal: its digits as far as a word holds them, scaled. Digits behind the point that
are left out do not count, and those in front of it count as zeros. -/
def scaledReal? (l : Literal) : Option Binary64 := do
  let (whole, zeros) := gatherDigits 0 l.whole
  let (digits, ignored) := gatherDigits whole l.fraction
  let shift : Int := zeros.length - (l.fraction.length - ignored.length : Nat)
  let x ← scale? (← Binary64.ofMagnitude? false digits) (shift + l.exponent.getD 0)
  return { x with negative := l.negative }

instance : RealReader := ⟨scaledReal?⟩

end Json

end SchemaCompiler
