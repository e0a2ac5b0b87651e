import SchemaCompiler.EsModule.Token
import SchemaCompiler.Proofs.Json.Quoted

/-! # Tokens of composed text

A text spells tokens when they are read from it whatever stands behind. A word or a number needs
something behind it that does not continue it; a closed text does not. -/

namespace SchemaCompiler

namespace EsModule

namespace Token

/-! ## One token -/

/-- A word. -/
def IsWord (s : String) : Prop :=
  ∃ c cs, s.toList = c :: cs ∧ startsWord c ∧ ∀ d ∈ cs, continuesWord d

/-- All of a word continues a word, and its first character starts one. -/
theorem isWord_iff {s : String} :
    IsWord s ↔ s.toList.head?.any startsWord ∧ s.toList.all continuesWord := by
  have hcontinues : ∀ c, startsWord c → continuesWord c := by
    intro c hc
    rw [continuesWord, hc, Bool.true_or]
  unfold IsWord
  cases s.toList with
  | nil => simp
  | cons c cs =>
      simp only [List.cons.injEq, List.head?_cons, Option.any_some, List.all_cons,
        Bool.and_eq_true, List.all_eq_true]
      constructor
      · rintro ⟨_, _, ⟨rfl, rfl⟩, hc, hcs⟩
        exact ⟨hc, hcontinues c hc, hcs⟩
      · rintro ⟨hc, -, hcs⟩
        exact ⟨c, cs, ⟨rfl, rfl⟩, hc, hcs⟩

instance : DecidablePred IsWord :=
  fun _ => decidable_of_iff _ isWord_iff.symm

/-- Nothing in front continues what stands before. -/
def Breaks (rest : List Char) : Prop :=
  ∀ c, rest.head? = some c → continuesWord c = false

theorem lex_blank (rest : List Char) : lex (' ' :: rest) = lex rest := by
  rw [lex, if_pos (by decide)]

theorem lex_newline (rest : List Char) : lex ('\n' :: rest) = lex rest := by
  rw [lex, if_pos (by decide)]

theorem class_of_mem_punctuators {c : Char} (h : c ∈ punctuators) :
    isBlank c = false ∧ c ≠ '"' ∧ startsWord c = false ∧ c.isDigit = false := by
  have hclass : punctuators.all fun c =>
      isBlank c = false ∧ c ≠ '"' ∧ startsWord c = false ∧ c.isDigit = false := by
    decide
  exact of_decide_eq_true (List.all_eq_true.mp hclass c h)

theorem lex_punctuator {c : Char} (h : c ∈ punctuators) (rest : List Char) :
    lex (c :: rest) = (lex rest).map (.punctuator c :: ·) := by
  obtain ⟨hblank, hquote, hword, hdigit⟩ := class_of_mem_punctuators h
  rw [lex]
  simp [hblank, hquote, hword, hdigit, h]

theorem lex_quotedChars (t : String) (rest : List Char) :
    lex (Json.quotedChars t ++ rest) = (lex rest).map (.string t :: ·) := by
  have hscan := Json.scanQuoted?_quotedChars t rest
  rw [Json.quotedChars, List.cons_append, List.append_assoc, List.singleton_append, lex,
    if_neg (by decide), if_pos rfl]
  split
  · next h => simp [hscan] at h
  · next h =>
      rw [hscan] at h
      cases h
      rfl

/-- What continues a word ends where the text breaks. -/
theorem span_of_breaks {cs rest : List Char} (hcs : ∀ d ∈ cs, continuesWord d)
    (hrest : Breaks rest) : (cs ++ rest).takeWhile continuesWord = cs ∧
      (cs ++ rest).dropWhile continuesWord = rest := by
  have htake : rest.takeWhile continuesWord = [] := by
    cases rest with
    | nil => rfl
    | cons c rest => simp [hrest c rfl]
  have hdrop : rest.dropWhile continuesWord = rest := by
    cases rest with
    | nil => rfl
    | cons c rest => simp [hrest c rfl]
  rw [List.takeWhile_append_of_pos hcs, List.dropWhile_append_of_pos hcs, htake, hdrop]
  simp

theorem lex_word {s : String} (h : IsWord s) {rest : List Char} (hrest : Breaks rest) :
    lex (s.toList ++ rest) = (lex rest).map (.word s :: ·) := by
  obtain ⟨c, cs, hlist, hc, hcs⟩ := h
  have hclass : isBlank c = false ∧ c ≠ '"' := by
    constructor
    · rw [← Bool.not_eq_true, isBlank]
      intro hblank
      simp only [Bool.or_eq_true, decide_eq_true_eq] at hblank
      rcases hblank with ((rfl | rfl) | rfl) | rfl <;> exact absurd hc (by decide)
    · rintro rfl
      exact absurd hc (by decide)
  obtain ⟨htake, hdrop⟩ := span_of_breaks hcs hrest
  have hs : String.ofList (c :: cs) = s := by rw [← hlist, String.ofList_toList]
  rw [hlist, List.cons_append, lex]
  simp only [hclass.1, hclass.2, hc, htake, hdrop, hs, Bool.false_eq_true, if_false, if_true]

theorem class_of_isDigit {c : Char} (h : c.isDigit) :
    isBlank c = false ∧ c ≠ '"' ∧ startsWord c = false := by
  have hclass : ∀ n < 58, (Char.ofNat n).isDigit → isBlank (Char.ofNat n) = false ∧
      Char.ofNat n ≠ '"' ∧ startsWord (Char.ofNat n) = false := by
    decide
  have hlt : c.toNat < 58 := by
    simp only [Char.isDigit, ge_iff_le, Bool.and_eq_true, decide_eq_true_eq] at h
    exact Nat.lt_succ_of_le (UInt32.le_iff_toNat_le.mp h.2)
  have hc := hclass c.toNat hlt
  rw [Char.ofNat_toNat] at hc
  exact hc h

theorem toList_toString (n : Nat) : (toString n).toList = Nat.toDigits 10 n :=
  Nat.toList_repr

theorem toString_injective {n m : Nat} (h : toString n = toString m) : n = m := by
  have hdigits : Nat.toDigits 10 n = Nat.toDigits 10 m := by
    rw [← toList_toString, ← toList_toString, h]
  rw [← Nat.ofDigitChars_ten_toDigits (n := n), hdigits, Nat.ofDigitChars_ten_toDigits]

theorem isDigit_of_mem_toDigits {n : Nat} {c : Char} (h : c ∈ Nat.toDigits 10 n) : c.isDigit :=
  Nat.isDigit_of_mem_toDigits (by decide) (by decide) h

/-- No number but zero starts with a zero. -/
theorem toDigits_eq_of_head? {n : Nat} (h : (Nat.toDigits 10 n).head? = some '0') :
    Nat.toDigits 10 n = ['0'] := by
  induction n using Nat.strongRecOn with
  | _ n ih =>
      by_cases hlt : n < 10
      · rw [Nat.toDigits_of_lt_base hlt, List.head?_cons, Option.some.injEq] at h
        rw [Nat.toDigits_of_lt_base hlt, h]
      · have hsplit := Nat.toDigits_of_base_le (b := 10) (n := n) (by decide) (by omega)
        have hhead : (Nat.toDigits 10 (n / 10)).head? = some '0' := by
          rw [hsplit] at h
          cases hdigits : Nat.toDigits 10 (n / 10) with
          | nil => exact absurd hdigits Nat.toDigits_ne_nil
          | cons c cs => rwa [hdigits] at h
        -- the digits in front of the last one would be those of zero
        have hzero := Nat.ofDigitChars_ten_toDigits (n := n / 10)
        rw [ih (n / 10) (by omega) hhead] at hzero
        have hnone : n / 10 = 0 := by rw [← hzero]; rfl
        omega

theorem number?_toDigits (n : Nat) : number? (Nat.toDigits 10 n) = some n := by
  have hdigits : (Nat.toDigits 10 n).all Char.isDigit :=
    List.all_eq_true.mpr fun c hc => isDigit_of_mem_toDigits hc
  rw [number?, if_pos ⟨hdigits, toDigits_eq_of_head?⟩, Nat.ofDigitChars_ten_toDigits]

theorem lex_number (n : Nat) {rest : List Char} (hrest : Breaks rest) :
    lex (Nat.toDigits 10 n ++ rest) = (lex rest).map (.number n :: ·) := by
  have hnumber := number?_toDigits n
  have hdigit : ∀ c ∈ Nat.toDigits 10 n, c.isDigit := fun c hc => isDigit_of_mem_toDigits hc
  cases hlist : Nat.toDigits 10 n with
  | nil => exact absurd hlist Nat.toDigits_ne_nil
  | cons c cs =>
      rw [hlist] at hnumber hdigit
      have hc : c.isDigit := hdigit c List.mem_cons_self
      have hclass : isBlank c = false ∧ c ≠ '"' ∧ startsWord c = false := class_of_isDigit hc
      have hcs : ∀ d ∈ cs, continuesWord d := by
        intro d hd
        simp [continuesWord, hdigit d (List.mem_cons_of_mem c hd)]
      obtain ⟨htake, hdrop⟩ := span_of_breaks hcs hrest
      rw [List.cons_append, lex]
      simp only [hclass.1, hclass.2.1, hclass.2.2, hc, htake, hdrop, hnumber, Bool.false_eq_true,
        if_false, if_true]

/-! ## Composition -/

/-- The text is read as the tokens when it breaks behind it. -/
def Spells (cs : List Char) (ts : List Token) : Prop :=
  ∀ rest, Breaks rest → lex (cs ++ rest) = (lex rest).map (ts ++ ·)

/-- The text is read as the tokens whatever stands behind it. -/
def Closes (cs : List Char) (ts : List Token) : Prop :=
  ∀ rest, lex (cs ++ rest) = (lex rest).map (ts ++ ·)

variable {cs ds : List Char} {ts us : List Token} {c : Char}

theorem Closes.spells (h : Closes cs ts) : Spells cs ts := fun rest _ => h rest

theorem closes_nil : Closes [] [] := by
  intro rest
  simp

theorem closes_punctuator (h : c ∈ punctuators) : Closes [c] [.punctuator c] :=
  fun rest => lex_punctuator h rest

theorem closes_quotedChars (t : String) : Closes (Json.quotedChars t) [.string t] :=
  fun rest => lex_quotedChars t rest

theorem spells_word {s : String} (h : IsWord s) : Spells s.toList [.word s] :=
  fun _ hrest => lex_word h hrest

theorem spells_number (n : Nat) : Spells (Nat.toDigits 10 n) [.number n] :=
  fun _ hrest => lex_number n hrest

theorem Closes.append (h : Closes cs ts) (h' : Closes ds us) : Closes (cs ++ ds) (ts ++ us) := by
  intro rest
  rw [List.append_assoc, h, h', Option.map_map]
  congr 1
  funext vs
  exact (List.append_assoc ts us vs).symm

theorem Closes.append_spells (h : Closes cs ts) (h' : Spells ds us) :
    Spells (cs ++ ds) (ts ++ us) := by
  intro rest hrest
  rw [List.append_assoc, h, h' rest hrest, Option.map_map]
  congr 1
  funext vs
  exact (List.append_assoc ts us vs).symm

/-- A punctuator closes what stands in front of it. -/
theorem Spells.punctuated (h : Spells cs ts) (hc : c ∈ punctuators) :
    Closes (cs ++ [c]) (ts ++ [.punctuator c]) := by
  obtain ⟨-, -, hword, hdigit⟩ := class_of_mem_punctuators hc
  intro rest
  have hbreaks : Breaks (c :: rest) := by
    intro d hd
    cases hd
    rw [continuesWord, hword, hdigit, Bool.false_or]
  rw [List.append_assoc, List.singleton_append, h _ hbreaks, lex_punctuator hc, Option.map_map]
  congr 1
  funext vs
  exact (List.append_assoc ts [.punctuator c] vs).symm

/-- A blank closes what stands in front of it, and is no token. -/
theorem Spells.blank (h : Spells cs ts) : Closes (cs ++ [' ']) ts := by
  intro rest
  have hbreaks : Breaks (' ' :: rest) := by
    intro d hd
    cases hd
    decide
  rw [List.append_assoc, List.singleton_append, h _ hbreaks, lex_blank]

/-- Items with commas between them, up to a closing punctuator. -/
theorem closes_intercalate {α : Type} {text : α → List Char} {tokens : α → List Token}
    {as : List α} (h : ∀ a ∈ as, Spells (text a) (tokens a)) (hc : c ∈ punctuators) :
    Closes ([','].intercalate (as.map text) ++ [c])
      ([.punctuator ','].intercalate (as.map tokens) ++ [.punctuator c]) := by
  induction as with
  | nil => exact closes_punctuator hc
  | cons a as ih =>
      cases as with
      | nil =>
          rw [List.map_cons, List.map_cons, List.map_nil, List.map_nil,
            List.intercalate_singleton, List.intercalate_singleton]
          exact (h a List.mem_cons_self).punctuated hc
      | cons b as =>
          have hfirst : Closes (text a ++ [',']) (tokens a ++ [.punctuator ',']) :=
            (h a List.mem_cons_self).punctuated (by decide)
          have hrest := ih fun x hx => h x (List.mem_cons_of_mem a hx)
          have hboth := hfirst.append hrest
          simpa only [List.map_cons, List.intercalate_cons_cons, List.append_assoc] using hboth

end Token

end EsModule

end SchemaCompiler
