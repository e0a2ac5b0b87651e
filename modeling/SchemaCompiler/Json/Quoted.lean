/-!
# Quoted strings

A string stands between double quotes. Writing escapes the quote, the backslash and the control
characters below the blank; reading takes every escape, and a character outside the basic plane also
as two escaped surrogates.
-/

namespace SchemaCompiler

namespace Json

/-! ## Writing -/

/-- The digit of a value below sixteen, in lower case. -/
def hexDigit (n : Nat) : Char :=
  if n < 10 then Char.ofNat ('0'.toNat + n) else Char.ofNat ('a'.toNat + (n - 10))

/-- One character as it stands between quotes. -/
def escapeChar (c : Char) : List Char :=
  if c = '"' then ['\\', '"']
  else if c = '\\' then ['\\', '\\']
  else if c = '\x08' then ['\\', 'b']
  else if c = '\t' then ['\\', 't']
  else if c = '\n' then ['\\', 'n']
  else if c = '\x0c' then ['\\', 'f']
  else if c = '\r' then ['\\', 'r']
  else if c.toNat < 0x20 then
    ['\\', 'u', '0', '0', hexDigit (c.toNat / 16), hexDigit (c.toNat % 16)]
  else [c]

/-- A string between quotes. -/
def quotedChars (s : String) : List Char :=
  '"' :: (s.toList.flatMap escapeChar ++ ['"'])

/-- A string between quotes. -/
def quote (s : String) : String :=
  String.ofList (quotedChars s)

/-! ## Reading -/

/-- The value of a hexadecimal digit of either case. -/
def hexValue? (c : Char) : Option Nat :=
  if '0' ≤ c ∧ c ≤ '9' then some (c.toNat - '0'.toNat)
  else if 'a' ≤ c ∧ c ≤ 'f' then some (c.toNat - 'a'.toNat + 10)
  else if 'A' ≤ c ∧ c ≤ 'F' then some (c.toNat - 'A'.toNat + 10)
  else none

/-- The value of four hexadecimal digits. -/
def hexUnit? (a b c d : Char) : Option Nat := do
  return (((← hexValue? a) * 16 + (← hexValue? b)) * 16 + (← hexValue? c)) * 16 + (← hexValue? d)

/-- Whether a unit is the first of a surrogate pair. -/
def isHighSurrogate (n : Nat) : Bool :=
  0xD800 ≤ n && n < 0xDC00

/-- Whether a unit is the second of a surrogate pair. -/
def isLowSurrogate (n : Nat) : Bool :=
  0xDC00 ≤ n && n < 0xE000

/-- The character that a surrogate pair stands for. -/
def surrogatePair (high low : Nat) : Char :=
  Char.ofNat (0x10000 + (high - 0xD800) * 0x400 + (low - 0xDC00))

/-- The character that a one-letter escape stands for. -/
def escapedChar? (c : Char) : Option Char :=
  match c with
  | '"' => some '"'
  | '\\' => some '\\'
  | '/' => some '/'
  | 'b' => some '\x08'
  | 'f' => some '\x0c'
  | 'n' => some '\n'
  | 'r' => some '\r'
  | 't' => some '\t'
  | _ => none

/-- What one character or one escape between quotes contributes: a character, or a 16-bit unit that
may be half of one. -/
inductive Piece
  | char (c : Char)
  | unit (n : Nat)

/-- Splits off the pieces up to the closing quote. Refuses a raw control character and an unknown
escape. -/
def scanPieces? : List Char → Option (List Piece × List Char)
  | [] => none
  | '"' :: rest => some ([], rest)
  | '\\' :: 'u' :: a :: b :: c :: d :: rest => do
    let n ← hexUnit? a b c d
    let (pieces, rest) ← scanPieces? rest
    return (.unit n :: pieces, rest)
  | '\\' :: c :: rest => do
    let c ← escapedChar? c
    let (pieces, rest) ← scanPieces? rest
    return (.char c :: pieces, rest)
  | c :: rest =>
    if c.toNat < 0x20 ∨ c = '\\' then none
    else do
      let (pieces, rest) ← scanPieces? rest
      return (.char c :: pieces, rest)

/-- The characters that pieces stand for. Refuses a surrogate without its partner. -/
def joinPieces? : List Piece → Option (List Char)
  | [] => some []
  | .char c :: rest => (joinPieces? rest).map (c :: ·)
  | .unit high :: .unit low :: rest =>
    if isHighSurrogate high then
      if isLowSurrogate low then (joinPieces? rest).map (surrogatePair high low :: ·) else none
    else if isLowSurrogate high then none
    else (joinPieces? (.unit low :: rest)).map (Char.ofNat high :: ·)
  | .unit n :: rest =>
    if isHighSurrogate n || isLowSurrogate n then none
    else (joinPieces? rest).map (Char.ofNat n :: ·)

/-- Reads the string whose opening quote has been passed, and gives what stands behind it. -/
def scanQuoted? (s : List Char) : Option (String × List Char) := do
  let (pieces, rest) ← scanPieces? s
  let characters ← joinPieces? pieces
  return (String.ofList characters, rest)

theorem length_lt_of_scanPieces? {s rest : List Char} {pieces : List Piece}
    (h : scanPieces? s = some (pieces, rest)) : rest.length < s.length := by
  fun_induction scanPieces? s generalizing pieces rest with
  | case1 => simp at h
  | case2 => simp_all
  | case3 a b c d s ih =>
    simp only [bind, Option.bind_eq_some_iff, pure, Option.some.injEq, Prod.mk.injEq] at h
    obtain ⟨_, _, ⟨_, r⟩, hr, _, rfl⟩ := h
    have := ih hr
    simp only [List.length_cons]
    omega
  | case4 c s _ ih =>
    simp only [bind, Option.bind_eq_some_iff, pure, Option.some.injEq, Prod.mk.injEq] at h
    obtain ⟨_, _, ⟨_, r⟩, hr, _, rfl⟩ := h
    have := ih hr
    simp only [List.length_cons]
    omega
  | case5 => simp at h
  | case6 c s _ _ _ _ ih =>
    simp only [bind, Option.bind_eq_some_iff, pure, Option.some.injEq, Prod.mk.injEq] at h
    obtain ⟨⟨_, r⟩, hr, _, rfl⟩ := h
    have := ih hr
    simp only [List.length_cons]
    omega

theorem length_lt_of_scanQuoted? {s rest : List Char} {t : String}
    (h : scanQuoted? s = some (t, rest)) : rest.length < s.length := by
  simp only [scanQuoted?, bind, Option.bind_eq_some_iff, pure, Option.some.injEq,
    Prod.mk.injEq] at h
  obtain ⟨⟨_, r⟩, hr, _, _, _, rfl⟩ := h
  exact length_lt_of_scanPieces? hr

end Json

end SchemaCompiler
