import SchemaCompiler.Json.Quoted

/-! # Quoted strings are read back -/

namespace SchemaCompiler

namespace Json

/-- The characters with an escape of one letter. -/
def namedEscapes : List Char := ['"', '\\', '\x08', '\t', '\n', '\x0c', '\r']

/-- The piece that an escaped character is read as. -/
def pieceOf (c : Char) : Piece :=
  if c.toNat < 0x20 ∧ c ∉ namedEscapes then .unit c.toNat else .char c

/-- The digits of a control character give its number back. -/
theorem hexUnit?_of_lt : ∀ n < 0x20,
    hexUnit? '0' '0' (hexDigit (n / 16)) (hexDigit (n % 16)) = some n := by
  decide

/-- An escape of one letter is one piece. -/
theorem scanPieces?_named {c : Char} (h : c ∈ namedEscapes) (rest : List Char) :
    scanPieces? (escapeChar c ++ rest) =
      (scanPieces? rest).map fun (pieces, rest) => (.char c :: pieces, rest) := by
  have hpiece : ∀ letter, letter ≠ 'u' → escapeChar c = ['\\', letter] →
      escapedChar? letter = some c → scanPieces? (escapeChar c ++ rest) =
        (scanPieces? rest).map fun (pieces, rest) => (.char c :: pieces, rest) := by
    intro letter hletter hescape hread
    rw [hescape, List.cons_append, List.cons_append, List.nil_append, scanPieces?, hread]
    · cases scanPieces? rest <;> rfl
    · intro a b c d s heq _
      exact hletter heq
  simp only [namedEscapes, List.mem_cons, List.not_mem_nil, or_false] at h
  rcases h with rfl | rfl | rfl | rfl | rfl | rfl | rfl
  · exact hpiece '"' (by decide) rfl rfl
  · exact hpiece '\\' (by decide) rfl rfl
  · exact hpiece 'b' (by decide) rfl rfl
  · exact hpiece 't' (by decide) rfl rfl
  · exact hpiece 'n' (by decide) rfl rfl
  · exact hpiece 'f' (by decide) rfl rfl
  · exact hpiece 'r' (by decide) rfl rfl

/-- A character is one piece, escaped or not. -/
theorem scanPieces?_escapeChar (c : Char) (rest : List Char) :
    scanPieces? (escapeChar c ++ rest) =
      (scanPieces? rest).map fun (pieces, rest) => (pieceOf c :: pieces, rest) := by
  by_cases hnamed : c ∈ namedEscapes
  · have hpiece : pieceOf c = .char c := by simp [pieceOf, hnamed]
    rw [hpiece]
    exact scanPieces?_named hnamed rest
  · have hnot := hnamed
    simp only [namedEscapes, List.mem_cons, List.not_mem_nil, or_false, not_or] at hnot
    obtain ⟨hquote, hbackslash, hb, ht, hn, hf, hr⟩ := hnot
    by_cases hcontrol : c.toNat < 0x20
    · have hpiece : pieceOf c = .unit c.toNat := by simp [pieceOf, hcontrol, hnamed]
      simp only [escapeChar, hquote, hbackslash, hb, ht, hn, hf, hr, hcontrol, if_true, if_false]
      simp only [List.cons_append, List.nil_append, scanPieces?, hexUnit?_of_lt _ hcontrol, hpiece]
      cases scanPieces? rest <;> rfl
    · have hpiece : pieceOf c = .char c := by simp [pieceOf, hcontrol]
      simp only [escapeChar, hquote, hbackslash, hb, ht, hn, hf, hr, hcontrol, if_false]
      rw [List.cons_append, List.nil_append, scanPieces?]
      · simp only [hcontrol, hbackslash, or_self, if_false, hpiece]
        cases scanPieces? rest <;> rfl
      · exact hquote
      · intro _ _ _ _ _ heq _
        exact hbackslash heq
      · intro _ _ heq _
        exact hbackslash heq

theorem scanPieces?_flatMap (cs rest : List Char) :
    scanPieces? (cs.flatMap escapeChar ++ '"' :: rest) = some (cs.map pieceOf, rest) := by
  induction cs with
  | nil => rw [List.flatMap_nil, List.nil_append, scanPieces?, List.map_nil]
  | cons c cs ih =>
      rw [List.flatMap_cons, List.append_assoc, scanPieces?_escapeChar, ih]
      rfl

/-- A unit that is no half of a pair stands for its own character. -/
theorem joinPieces?_unit {n : Nat} (h : n < 0x20) (pieces : List Piece) :
    joinPieces? (.unit n :: pieces) = (joinPieces? pieces).map (Char.ofNat n :: ·) := by
  have hhigh : isHighSurrogate n = false := by
    simp only [isHighSurrogate, Bool.and_eq_false_iff, decide_eq_false_iff_not]
    omega
  have hlow : isLowSurrogate n = false := by
    simp only [isLowSurrogate, Bool.and_eq_false_iff, decide_eq_false_iff_not]
    omega
  cases pieces with
  | nil => simp [joinPieces?, hhigh, hlow]
  | cons piece pieces => cases piece <;> simp [joinPieces?, hhigh, hlow]

theorem joinPieces?_map (cs : List Char) : joinPieces? (cs.map pieceOf) = some cs := by
  induction cs with
  | nil => rfl
  | cons c cs ih =>
      rw [List.map_cons, pieceOf]
      split
      · next h =>
          rw [joinPieces?_unit h.1, ih, Char.ofNat_toNat]
          rfl
      · rw [joinPieces?, ih]
        rfl

/-- A quoted string is read back, whatever stands behind it. -/
theorem scanQuoted?_quotedChars (t : String) (rest : List Char) :
    scanQuoted? (t.toList.flatMap escapeChar ++ '"' :: rest) = some (t, rest) := by
  rw [scanQuoted?, scanPieces?_flatMap]
  simp only [bind, Option.bind, joinPieces?_map]
  rw [String.ofList_toList]
  rfl

end Json

end SchemaCompiler
