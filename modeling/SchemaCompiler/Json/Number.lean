import SchemaCompiler.Binary64.Shortest
import SchemaCompiler.Json.Basic
import SchemaCompiler.Word64

/-!
# JSON number text

An integer is written plainly. A double is written with its shortest digits, always with a fraction or
an exponent, so that the text shows how the number is held. Reading takes a literal without fraction
and exponent as an integer where it fits 64 bits; minus zero, and all else, is a double, and which double
that is depends on the reader.
-/

namespace SchemaCompiler

namespace Json

/-! ## Writing -/

/-- The powers of ten between which a double is written without an exponent. -/
structure RealLayout where
  leastPlain : Int
  leastScientific : Int

/-- Doubles from `0.00001` up to but without `1e+16` are written without an exponent. -/
def realLayout : RealLayout := ⟨-5, 16⟩

def natChars (n : Nat) : List Char :=
  Nat.toDigits 10 n

/-- An exponent with its sign, without padding. -/
def exponentChars (e : Int) : List Char :=
  'e' :: (if e < 0 then '-' else '+') :: natChars e.natAbs

/-- A decimal written out with a point and at least one digit on both sides of it. -/
def plainChars (d : Decimal) : List Char :=
  let digits := natChars d.digits
  let whole := d.exponent + digits.length
  if 0 ≤ d.exponent then digits ++ List.replicate d.exponent.toNat '0' ++ ['.', '0']
  else if 0 < whole then digits.take whole.toNat ++ '.' :: digits.drop whole.toNat
  else '0' :: '.' :: (List.replicate (-whole).toNat '0' ++ digits)

/-- A decimal written with one digit before the point and an exponent. -/
def scientificChars (d : Decimal) : List Char :=
  let digits := natChars d.digits
  let fraction := match digits.tail with
    | [] => []
    | rest => '.' :: rest
  digits.take 1 ++ fraction ++ exponentChars (d.exponent + digits.length - 1)

/-- The text of a decimal, without or with an exponent as `realLayout` says. -/
def decimalChars (d : Decimal) : List Char :=
  let power := d.exponent + (natChars d.digits).length - 1
  if realLayout.leastPlain ≤ power ∧ power < realLayout.leastScientific then plainChars d
  else scientificChars d

def realChars (x : Binary64) : List Char :=
  let unsigned := if x.mantissa = 0 then plainChars ⟨0, 0⟩ else decimalChars x.shortest
  if x.negative then '-' :: unsigned else unsigned

def Number.chars : Number → List Char
  | .unsigned n => natChars n.toNat
  | .negative n _ => '-' :: natChars n.toInt.natAbs
  | .real x => realChars x

/-! ## Reading -/

def digitsValue (digits : List Char) : Nat :=
  digits.foldl (fun n c => 10 * n + (c.toNat - '0'.toNat)) 0

/-- The parts of a number literal. -/
structure Literal where
  negative : Bool
  whole : List Char
  fraction : List Char
  exponent : Option Int

/-- A way of reading the literals that are held as doubles. -/
class RealReader where
  /-- The double that is read for a literal, or none where the literal is refused. -/
  real? : Literal → Option Binary64

/-- The integer that a literal denotes, if it is held as one. -/
def Literal.integer? (l : Literal) : Option Number :=
  let whole := digitsValue l.whole
  if l.negative then
    match Word64.signed? (-whole) with
    | some n => if h : n < 0 then some (.negative n h) else none
    | none => none
  else
    (Word64.unsigned? whole).map .unsigned

/-- The double that is read for a literal. -/
def Literal.real? [RealReader] (l : Literal) : Option Number :=
  (RealReader.real? l).map .real

/-- The number that is read for a literal. -/
def Literal.number? [RealReader] (l : Literal) : Option Number :=
  if l.fraction = [] ∧ l.exponent = none then l.integer?.or l.real? else l.real?

/-- Splits off the digits in front of a text, at least one of them. -/
def scanDigits? (s : List Char) : Option (List Char × List Char) :=
  match s.takeWhile Char.isDigit with
  | [] => none
  | digits => some (digits, s.dropWhile Char.isDigit)

/-- Splits off the part of a literal before the point: no zero stands in front of another digit. -/
def scanWhole? (s : List Char) : Option (List Char × List Char) := do
  let (digits, rest) ← scanDigits? s
  if digits.head? = some '0' ∧ digits.length ≠ 1 then none
  return (digits, rest)

/-- Splits off the digits after a point; there are none where no point stands. -/
def scanFraction? : List Char → Option (List Char × List Char)
  | '.' :: rest => scanDigits? rest
  | s => some ([], s)

/-- Splits off the sign in front of an exponent's digits. -/
def scanSign : List Char → Bool × List Char
  | '-' :: rest => (true, rest)
  | '+' :: rest => (false, rest)
  | s => (false, s)

/-- Splits off an exponent, where one stands. -/
def scanExponent? : List Char → Option (Option Int × List Char)
  | [] => some (none, [])
  | c :: rest =>
    if c = 'e' ∨ c = 'E' then do
      let (negative, rest) := scanSign rest
      let (digits, rest) ← scanDigits? rest
      let e : Int := digitsValue digits
      return (some (if negative then -e else e), rest)
    else
      some (none, c :: rest)

def scanLiteral? (s : List Char) : Option (Literal × List Char) := do
  let (negative, s) := match s with
    | '-' :: rest => (true, rest)
    | _ => (false, s)
  let (whole, s) ← scanWhole? s
  let (fraction, s) ← scanFraction? s
  let (exponent, s) ← scanExponent? s
  return (⟨negative, whole, fraction, exponent⟩, s)

def scanNumber? [RealReader] (s : List Char) : Option (Number × List Char) := do
  let (l, rest) ← scanLiteral? s
  let n ← l.number?
  return (n, rest)

/-! ## Progress -/

theorem length_lt_of_scanDigits? {s digits rest : List Char}
    (h : scanDigits? s = some (digits, rest)) : rest.length < s.length := by
  cases s with
  | nil => simp [scanDigits?] at h
  | cons c s =>
    by_cases hc : c.isDigit
    · simp only [scanDigits?, List.takeWhile_cons, hc, if_true, List.dropWhile_cons,
        Option.some.injEq, Prod.mk.injEq] at h
      obtain ⟨_, rfl⟩ := h
      have := (List.dropWhile_suffix (l := s) Char.isDigit).length_le
      simp only [List.length_cons]
      omega
    · simp [scanDigits?, hc] at h

theorem length_lt_of_scanWhole? {s digits rest : List Char}
    (h : scanWhole? s = some (digits, rest)) : rest.length < s.length := by
  simp only [scanWhole?, bind, Option.bind_eq_some_iff] at h
  obtain ⟨⟨ds, r⟩, hs, h⟩ := h
  split at h
  · simp at h
  · simp only [pure, Option.some.injEq, Prod.mk.injEq] at h
    obtain ⟨_, rfl⟩ := h
    exact length_lt_of_scanDigits? hs

theorem length_le_of_scanFraction? {s digits rest : List Char}
    (h : scanFraction? s = some (digits, rest)) : rest.length ≤ s.length := by
  unfold scanFraction? at h
  split at h
  · have := length_lt_of_scanDigits? h
    simp only [List.length_cons]
    omega
  · simp_all

theorem length_scanSign_le (s : List Char) : (scanSign s).2.length ≤ s.length := by
  unfold scanSign
  split <;> simp

theorem length_le_of_scanExponent? {s rest : List Char} {e : Option Int}
    (h : scanExponent? s = some (e, rest)) : rest.length ≤ s.length := by
  unfold scanExponent? at h
  split at h
  · simp_all
  · rename_i c s
    split at h
    · simp only [bind, Option.bind_eq_some_iff, pure, Option.some.injEq, Prod.mk.injEq] at h
      obtain ⟨⟨ds, r⟩, hs, _, rfl⟩ := h
      have := length_lt_of_scanDigits? hs
      have := length_scanSign_le s
      simp only [List.length_cons]
      omega
    · simp only [Option.some.injEq, Prod.mk.injEq] at h
      simp [← h.2]

theorem length_lt_of_scanLiteral? {s rest : List Char} {l : Literal}
    (h : scanLiteral? s = some (l, rest)) : rest.length < s.length := by
  have body : ∀ {negative : Bool} {t : List Char},
      (do let (whole, s) ← scanWhole? t
          let (fraction, s) ← scanFraction? s
          let (exponent, s) ← scanExponent? s
          return ((⟨negative, whole, fraction, exponent⟩ : Literal), s)) = some (l, rest) →
        rest.length < t.length := by
    intro negative t h
    simp only [bind, Option.bind_eq_some_iff, pure, Option.some.injEq, Prod.mk.injEq] at h
    obtain ⟨⟨_, r₁⟩, h₁, ⟨_, r₂⟩, h₂, ⟨_, r₃⟩, h₃, _, rfl⟩ := h
    have := length_lt_of_scanWhole? h₁
    have := length_le_of_scanFraction? h₂
    have := length_le_of_scanExponent? h₃
    simp only at *
    omega
  unfold scanLiteral? at h
  split at h
  rename_i heq
  split at heq <;> cases heq
  · have := body h
    simp only [List.length_cons]
    omega
  · exact body h

theorem length_lt_of_scanNumber? [RealReader] {s rest : List Char} {n : Number}
    (h : scanNumber? s = some (n, rest)) : rest.length < s.length := by
  simp only [scanNumber?, bind, Option.bind_eq_some_iff, pure, Option.some.injEq,
    Prod.mk.injEq] at h
  obtain ⟨⟨_, r⟩, hl, _, _, _, rfl⟩ := h
  exact length_lt_of_scanLiteral? hl

end Json

end SchemaCompiler
