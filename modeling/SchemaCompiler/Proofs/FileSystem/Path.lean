import SchemaCompiler.FileSystem.Path
import SchemaCompiler.Proofs.Text

/-! # Pieces of paths -/

namespace SchemaCompiler

namespace Path

/-- A name that stands for one entry of a directory. -/
structure Plain (name : String) : Prop where
  ne_empty : name ≠ ""
  ne_dot : name ≠ "."
  ne_dots : name ≠ ".."
  slash_notMem : '/' ∉ name.toList

theorem plain_iff {name : String} :
    Plain name ↔ name ≠ "" ∧ name ≠ "." ∧ name ≠ ".." ∧ '/' ∉ name.toList :=
  ⟨fun h => ⟨h.ne_empty, h.ne_dot, h.ne_dots, h.slash_notMem⟩, fun ⟨h, h₁, h₂, h₃⟩ => ⟨h, h₁, h₂, h₃⟩⟩

instance (name : String) : Decidable (Plain name) :=
  decidable_of_iff _ plain_iff.symm

/-! ## Pieces -/

theorem pieces_of_slash_notMem {name : String} (h : '/' ∉ name.toList) : pieces name = [name] := by
  rw [pieces, Text.splitBy_eq_splitOn, List.splitOn_eq_singleton h]
  simp

/-- A slash falls between the pieces on its sides. -/
theorem pieces_append_slash (a b : String) : pieces (a ++ "/" ++ b) = pieces a ++ pieces b := by
  have hlist : (a ++ "/" ++ b).toList = a.toList ++ '/' :: b.toList := by simp
  rw [pieces, hlist, Text.splitBy_append_cons, List.map_append, pieces, pieces]

theorem slash_notMem_of_mem_pieces (path : String) {piece : String} (h : piece ∈ pieces path) :
    '/' ∉ piece.toList := by
  obtain ⟨l, hl, rfl⟩ := List.mem_map.mp h
  rw [String.toList_ofList]
  intro hslash
  simpa using Text.separates_eq_false_of_mem hl hslash

/-- An absolute path is one whose first piece is empty, unless it is empty itself. -/
theorem isAbsolute_iff {path : String} :
    isAbsolute path ↔ (pieces path).head? = some "" ∧ pieces path ≠ [""] := by
  unfold isAbsolute pieces
  cases path.toList with
  | nil => simp [Text.splitBy]
  | cons c s =>
      rw [Text.splitBy]
      by_cases hc : c = '/'
      · have hne : Text.splitBy (· = '/') s ≠ [] := by
          rw [Text.splitBy_eq_splitOn]
          exact List.splitOn_ne_nil '/' s
        simpa [hc] using hne
      · simp only [hc, decide_false, Bool.false_eq_true, if_false]
        split <;> simp [hc]

/-! ## Last pieces -/

theorem dropIdle_suffix (pieces : List String) : dropIdle pieces <:+ pieces := by
  fun_induction dropIdle pieces with
  | case1 => exact List.suffix_refl []
  | case2 => exact List.nil_suffix
  | case3 => exact List.suffix_refl _
  | case4 piece rest _ _ ih => exact ih.trans (List.suffix_cons piece rest)
  | case5 => exact List.suffix_refl _

theorem dropIdle_ne_singleton_empty (pieces : List String) : dropIdle pieces ≠ [""] := by
  fun_induction dropIdle pieces with
  | case1 => simp
  | case2 => simp
  | case3 first h => simpa using h
  | case4 piece rest _ _ ih => exact ih
  | case5 piece rest _ h => simp only [ne_eq, List.cons.injEq, not_and]; grind

theorem dropIdle_cons_of_plain {name : String} (h : Plain name) (rest : List String) :
    dropIdle (name :: rest) = name :: rest := by
  cases rest with
  | nil => simp [dropIdle, h.ne_empty]
  | cons piece rest => simp [dropIdle, h.ne_empty, h.ne_dot]

theorem pieces_ofReversed {absolute : Bool} {segments : List String} (hne : segments ≠ [])
    (hfree : ∀ segment ∈ segments, '/' ∉ segment.toList) :
    pieces (ofReversed absolute segments) = segments.reverse := by
  cases segments with
  | nil => exact absurd rfl hne
  | cons segment rest =>
      apply Text.splitBy_intercalate
      · simp
      · intro piece hpiece
        exact hfree piece (List.mem_reverse.mp hpiece)

/-! ## Names in a directory -/

variable {directory name : String}

theorem isAbsolute_of_slash_notMem (h : '/' ∉ name.toList) : isAbsolute name = false := by
  rw [isAbsolute, decide_eq_false_iff_not]
  exact fun hslash => h (List.mem_of_head? hslash)

theorem Plain.not_isAbsolute (h : Plain name) : isAbsolute name = false :=
  isAbsolute_of_slash_notMem h.slash_notMem

/-- The pieces in front of a segment that is joined to a directory, up to empty ones. -/
theorem pieces_join_of_slash_notMem (directory : String) (h : '/' ∉ name.toList) :
    ∃ front, pieces (join directory name) = front ++ [name] ∧
      (front = [] ∧ directory = "" ∨ isAbsolute (join directory name) = isAbsolute directory ∧
        (pieces directory = front ∨ pieces directory = front ++ [""])) := by
  have hname := pieces_of_slash_notMem h
  have happend : ∀ s, directory ≠ "" → isAbsolute (directory ++ s) = isAbsolute directory := by
    intro s hne
    rw [isAbsolute, isAbsolute, String.toList_append]
    cases hlist : directory.toList with
    | nil => exact absurd (String.toList_eq_nil_iff.mp hlist) hne
    | cons => rfl
  simp only [join, isAbsolute_of_slash_notMem h, Bool.false_eq_true, if_false]
  by_cases hempty : directory = ""
  · exact ⟨[], by simp [hempty, hname], .inl ⟨rfl, hempty⟩⟩
  · by_cases hslash : directory.toList.getLast? = some '/'
    · -- a slash that is there already leaves an empty piece behind it
      obtain ⟨front, hfront⟩ := List.getLast?_eq_some_iff.mp hslash
      have hdirectory : directory = String.ofList front ++ "/" ++ "" := by
        rw [← String.toList_inj, hfront]
        simp
      have hlast : pieces directory = pieces (String.ofList front) ++ [""] := by
        rw [hdirectory, pieces_append_slash]
        rfl
      rw [if_pos (.inr hslash)]
      refine ⟨pieces (String.ofList front), ?_, .inr ⟨happend name hempty, .inr hlast⟩⟩
      rw [hdirectory, String.append_empty, pieces_append_slash, hname]
    · rw [if_neg (by simp [hempty, hslash])]
      refine ⟨pieces directory, by rw [pieces_append_slash, hname], .inr ⟨?_, .inl rfl⟩⟩
      rw [String.append_assoc]
      exact happend _ hempty

theorem pieces_join (directory : String) (h : Plain name) :
    ∃ front, pieces (join directory name) = front ++ [name] ∧
      (front = [] ∧ directory = "" ∨ isAbsolute (join directory name) = isAbsolute directory ∧
        (pieces directory = front ∨ pieces directory = front ++ [""])) :=
  pieces_join_of_slash_notMem directory h.slash_notMem

/-- A path that ends in a name has it as its last segment, in the directory of what is in front. -/
theorem parts_of_pieces {path : String} {front : List String} (h : Plain name)
    (hpieces : pieces path = front ++ [name]) : fileName? path = some name ∧
      parent? path = some (ofReversed (isAbsolute path) (dropIdle front.reverse)) := by
  have hreversed : reversed path = name :: front.reverse := by
    rw [reversed, hpieces, List.reverse_append]
    exact dropIdle_cons_of_plain h front.reverse
  rw [fileName?, parent?, hreversed]
  simp [h.ne_dot, h.ne_dots]

/-- The directory of a path is absolute when the path is. -/
theorem isAbsolute_parent {path : String} {front : List String} (h : Plain name)
    (hpieces : pieces path = front ++ [name]) (hne : dropIdle front.reverse ≠ []) :
    isAbsolute (ofReversed (isAbsolute path) (dropIdle front.reverse)) = isAbsolute path := by
  have hsuffix := dropIdle_suffix front.reverse
  have hfree : ∀ segment ∈ dropIdle front.reverse, '/' ∉ segment.toList := by
    intro segment hsegment
    apply slash_notMem_of_mem_pieces path
    rw [hpieces]
    simp [List.mem_reverse.mp (hsuffix.subset hsegment)]
  obtain ⟨back, hback⟩ := hsuffix
  have hfront : front = (dropIdle front.reverse).reverse ++ back.reverse := by
    rw [← List.reverse_append, hback, List.reverse_reverse]
  have hhead : (dropIdle front.reverse).reverse.head? = (pieces path).head? := by
    cases hsegments : (dropIdle front.reverse).reverse with
    | nil => exact absurd (List.reverse_eq_nil_iff.mp hsegments) hne
    | cons segment rest =>
        rw [hsegments] at hfront
        rw [hpieces, hfront]
        rfl
  have hsingle : (dropIdle front.reverse).reverse ≠ [""] := by
    intro heq
    exact dropIdle_ne_singleton_empty front.reverse (List.reverse_eq_iff.mp heq)
  have hpath : pieces path ≠ [""] := by
    rw [hpieces]
    intro heq
    have hlast := congrArg List.getLast? heq
    simp [h.ne_empty] at hlast
  apply Bool.eq_iff_iff.mpr
  rw [isAbsolute_iff, isAbsolute_iff, pieces_ofReversed hne hfree, hhead]
  simp [hsingle, hpath]

/-! ## The order of names -/

/-- What is sorted by distinct keys ascends strictly. -/
theorem mergeSort_ascending {α κ : Type} [LE κ] [LT κ] [DecidableLE κ] [Std.IsLinearOrder κ]
    [Std.LawfulOrderLT κ] (key : α → κ) {l : List α} (h : (l.map key).Nodup) :
    (l.mergeSort fun a b => decide (key a ≤ key b)).Pairwise fun a b => key a < key b := by
  have hle : (l.mergeSort fun a b => decide (key a ≤ key b)).Pairwise
      fun a b => decide (key a ≤ key b) = true := by
    apply List.pairwise_mergeSort
    · intro a b c hab hbc
      rw [decide_eq_true_eq] at *
      exact Std.le_trans hab hbc
    · intro a b
      simpa using Std.le_total
  have hne : (l.mergeSort fun a b => decide (key a ≤ key b)).Pairwise (key · ≠ key ·) := by
    rw [List.Perm.pairwise_iff (fun hne => hne.symm) (List.mergeSort_perm l _)]
    exact List.pairwise_map.mp h
  refine (hle.and hne).imp ?_
  rintro a b ⟨hab, hne⟩
  exact Std.lt_of_le_of_ne (of_decide_eq_true hab) hne

/-- The bytes that are listed are those in front of the next one, until all of them are. -/
theorem toList_loop {bs : ByteArray} {i : Nat} {listed : List UInt8}
    (h : listed.reverse = bs.data.toList.take i) : ByteArray.toList.loop bs i listed = bs.data.toList := by
  fun_induction ByteArray.toList.loop bs i listed with
  | case1 i listed hi ih =>
      have hlt : i < bs.data.toList.length := by simpa using hi
      have hbyte : bs.get! i = bs.data.toList[i] := by simp [ByteArray.get!, hi]
      apply ih
      rw [List.reverse_cons, h, hbyte, List.take_append_getElem]
  | case2 i listed hi =>
      rw [h, List.take_of_length_le (by simpa using Nat.le_of_not_lt hi)]

theorem nameBytes_eq (name : String) : nameBytes name = name.toUTF8.data.toList :=
  toList_loop rfl

theorem nameBytes_injective : Function.Injective nameBytes := by
  intro a b h
  rw [nameBytes_eq, nameBytes_eq, Array.toList_inj] at h
  exact String.toByteArray_inj.mp (ByteArray.ext h)

@[simp] theorem nameLE_iff {a b : String} : nameLE a b = true ↔ nameBytes a ≤ nameBytes b :=
  decide_eq_true_iff

end Path

end SchemaCompiler
