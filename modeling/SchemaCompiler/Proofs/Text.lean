import SchemaCompiler.Text.Split

/-! # Splitting at a character and joining again -/

namespace SchemaCompiler

namespace Text

/-- Splitting is the splitting of lists. -/
theorem splitBy_eq_splitOnP (separates : Char → Bool) (s : List Char) :
    splitBy separates s = s.splitOnP separates := by
  induction s with
  | nil => rfl
  | cons c s ih =>
      rw [splitBy, ih, List.splitOnP_cons_eq_if_modifyHead]
      cases h : s.splitOnP separates with
      | nil => exact absurd h (List.splitOnP_ne_nil separates s)
      | cons piece pieces => simp

theorem splitBy_eq_splitOn (c : Char) (s : List Char) : splitBy (· = c) s = s.splitOn c := by
  rw [splitBy_eq_splitOnP, List.splitOn_eq_splitOnP]
  rfl

/-- No piece holds a separator. -/
theorem separates_eq_false_of_mem {separates : Char → Bool} {s piece : List Char}
    (h : piece ∈ splitBy separates s) {c : Char} (hc : c ∈ piece) : separates c = false := by
  induction s generalizing piece with
  | nil =>
      rw [splitBy, List.mem_singleton] at h
      simp [h] at hc
  | cons d s ih =>
      rw [splitBy] at h
      split at h
      · rcases List.mem_cons.mp h with rfl | h
        · simp at hc
        · exact ih h hc
      · next hd =>
          split at h
          · rw [List.mem_singleton.mp h, List.mem_singleton] at hc
            simpa [hc] using hd
          · next first pieces hsplit =>
              rcases List.mem_cons.mp h with rfl | h
              · rcases List.mem_cons.mp hc with rfl | hc
                · simpa using hd
                · exact ih (hsplit ▸ List.mem_cons_self ..) hc
              · exact ih (hsplit ▸ List.mem_cons_of_mem _ h) hc

/-- A separator falls between the pieces on its sides. -/
theorem splitBy_append_cons (c : Char) (a b : List Char) :
    splitBy (· = c) (a ++ c :: b) = splitBy (· = c) a ++ splitBy (· = c) b := by
  simp only [splitBy_eq_splitOn, List.splitOn_append_cons_self]

/-- Joined again, the pieces between separators give a text back. -/
theorem intercalate_splitBy (c : Char) (s : String) :
    (String.singleton c).intercalate ((splitBy (· = c) s.toList).map String.ofList) = s := by
  rw [← String.toList_inj, String.toList_intercalate, splitBy_eq_splitOn, List.map_map]
  have hpieces : String.toList ∘ String.ofList = id := funext fun _ => String.toList_ofList
  rw [hpieces, List.map_id, String.toList_singleton]
  exact List.intercalate_splitOn c

/-- Pieces without a separator are found again in the text that joins them. -/
theorem splitBy_intercalate {c : Char} {pieces : List String} (hne : pieces ≠ [])
    (hfree : ∀ piece ∈ pieces, c ∉ piece.toList) :
    (splitBy (· = c) ((String.singleton c).intercalate pieces).toList).map String.ofList =
      pieces := by
  have hsplit : ([c].intercalate (pieces.map String.toList)).splitOn c =
      pieces.map String.toList := by
    apply List.splitOn_intercalate
    · intro l hl
      obtain ⟨piece, hpiece, rfl⟩ := List.mem_map.mp hl
      exact hfree piece hpiece
    · simpa using hne
  rw [splitBy_eq_splitOn, String.toList_intercalate, String.toList_singleton, hsplit, List.map_map]
  have hpieces : String.ofList ∘ String.toList = id := funext fun _ => String.ofList_toList
  rw [hpieces, List.map_id]

/-! ## Dotted text -/

theorem intercalate_dotted (s : String) : ".".intercalate (dotted s) = s :=
  intercalate_splitBy '.' s

theorem dot_notMem_of_mem_dotted {s piece : String} (h : piece ∈ dotted s) : '.' ∉ piece.toList := by
  obtain ⟨l, hl, rfl⟩ := List.mem_map.mp h
  rw [String.toList_ofList]
  intro hdot
  simpa using separates_eq_false_of_mem hl hdot

theorem dotted_append_dot (a b : String) : dotted (a ++ "." ++ b) = dotted a ++ dotted b := by
  have hlist : (a ++ "." ++ b).toList = a.toList ++ '.' :: b.toList := by simp
  rw [dotted, hlist, splitBy_append_cons, List.map_append, dotted, dotted]

theorem dotted_intercalate {pieces : List String} (hne : pieces ≠ [])
    (hfree : ∀ piece ∈ pieces, '.' ∉ piece.toList) :
    dotted (".".intercalate pieces) = pieces :=
  splitBy_intercalate hne hfree

theorem dotted_of_undotted {s : String} (h : '.' ∉ s.toList) : dotted s = [s] :=
  @dotted_intercalate [s] (by simp) (by simpa using h)

end Text

end SchemaCompiler
