import Mathlib.Data.List.Basic

/-! # Texts that determine what they are written for

A text is unambiguous when, in front of anything that may follow, it determines both what it was written
for and where it ends. With the rest of the text in the statement, parts compose to the whole. -/

namespace SchemaCompiler

namespace Text

variable {α : Type} {valid : α → Prop} {follows : List Char → Prop} {print : α → List Char}

/-- In front of rests of one kind, the texts of items of one kind determine the item and the rest. -/
def Determines (valid : α → Prop) (follows : List Char → Prop) (print : α → List Char) : Prop :=
  ∀ ⦃a b : α⦄, valid a → valid b → ∀ ⦃s t : List Char⦄, follows s → follows t →
    print a ++ s = print b ++ t → a = b ∧ s = t

/-! ## Words -/

/-- A run of characters goes on up to the first character that ends it. -/
theorem determines_run (ends : Char → Bool) :
    Determines (fun cs : List Char => ∀ c ∈ cs, ends c = false)
      (fun s => ∀ c, s.head? = some c → ends c) id := by
  intro u v hu hv s t hs ht h
  simp only [id_eq] at h
  induction u generalizing v with
  | nil =>
      cases v with
      | nil => exact ⟨rfl, h⟩
      | cons d v =>
          have hd : ends d := hs d (by rw [← List.nil_append s, h]; rfl)
          simp [hv d (by simp)] at hd
  | cons c u ih =>
      cases v with
      | nil =>
          have hc : ends c := ht c (by rw [← List.nil_append t, ← h]; rfl)
          simp [hu c (by simp)] at hc
      | cons d v =>
          simp only [List.cons_append, List.cons.injEq] at h
          rw [List.forall_mem_cons] at hu hv
          obtain ⟨rfl, hrest⟩ := h
          obtain ⟨rfl, rfl⟩ := ih hu.2 hv.2 hrest
          exact ⟨rfl, rfl⟩

/-- The same of a run as a string. -/
theorem determines_word (ends : Char → Bool) :
    Determines (fun word : String => ∀ c ∈ word.toList, ends c = false)
      (fun s => ∀ c, s.head? = some c → ends c) String.toList := by
  intro a b ha hb s t hs ht h
  obtain ⟨hab, hst⟩ := determines_run ends ha hb hs ht h
  exact ⟨String.toList_inj.mp hab, hst⟩

/-- A word that may be there or not, in front of rests that do not start with it. -/
def optionalWord (word : List Char) (present : Bool) : List Char :=
  if present then word else []

theorem determines_optionalWord (word : List Char) :
    Determines (fun _ => True) (fun s => ¬word <+: s) (optionalWord word) := by
  intro a b _ _ s t hs ht h
  cases a <;> cases b
  · exact ⟨rfl, h⟩
  · exact absurd ⟨t, h.symm⟩ hs
  · exact absurd ⟨s, h⟩ ht
  · exact ⟨rfl, List.append_cancel_left h⟩

/-! ## Lists in parentheses -/

/-- The items behind the first one, up to the closing parenthesis. -/
def furtherItems (print : α → List Char) : List α → List Char
  | [] => [')']
  | a :: as => ", ".toList ++ (print a ++ furtherItems print as)

/-- Items between commas, up to the closing parenthesis. -/
def items (print : α → List Char) : List α → List Char
  | [] => [')']
  | a :: as => print a ++ furtherItems print as

theorem intercalate_append_close (print : α → List Char) (as : List α) :
    ", ".toList.intercalate (as.map print) ++ [')'] = items print as := by
  induction as with
  | nil => rfl
  | cons a as ih =>
      cases as with
      | nil => simp [items, furtherItems, List.intercalate]
      | cons b as =>
          rw [List.map_cons, List.map_cons, List.intercalate_cons_cons, ← List.map_cons,
            List.append_assoc, List.append_assoc, ih]
          rfl

/-- Whatever stands behind an item of a list. -/
def Delimited (s : List Char) : Prop :=
  s.head? = some ',' ∨ s.head? = some ')'

theorem delimited_furtherItems (as : List α) (s : List Char) :
    Delimited (furtherItems print as ++ s) := by
  cases as with
  | nil => exact .inr rfl
  | cons a as => exact .inl rfl

theorem determines_furtherItems (h : Determines valid Delimited print) :
    Determines (fun as => ∀ a ∈ as, valid a) (fun _ => True) (furtherItems print) := by
  intro as bs has hbs s t _ _ heq
  induction as generalizing bs with
  | nil =>
      cases bs with
      | nil => exact ⟨rfl, List.append_cancel_left heq⟩
      | cons b bs => simp [furtherItems] at heq
  | cons a as ih =>
      cases bs with
      | nil => simp [furtherItems] at heq
      | cons b bs =>
          simp only [furtherItems, List.append_assoc, List.append_cancel_left_eq] at heq
          rw [List.forall_mem_cons] at has hbs
          obtain ⟨rfl, hrest⟩ := h has.1 hbs.1 (delimited_furtherItems as s)
            (delimited_furtherItems bs t) heq
          obtain ⟨rfl, rfl⟩ := ih has.2 hbs.2 hrest
          exact ⟨rfl, rfl⟩

/-- Lists are determined by their texts when items are, and when no item starts with a parenthesis. -/
theorem determines_items (h : Determines valid Delimited print)
    (hopen : ∀ a, valid a → ∃ c rest, print a = c :: rest ∧ c ≠ ')') :
    Determines (fun as => ∀ a ∈ as, valid a) (fun _ => True) (items print) := by
  intro as bs has hbs s t _ _ heq
  cases as with
  | nil =>
      cases bs with
      | nil => exact ⟨rfl, List.append_cancel_left heq⟩
      | cons b bs =>
          obtain ⟨c, rest, hb, hc⟩ := hopen b (hbs b (by simp))
          simp only [items, hb, List.cons_append, List.nil_append, List.cons.injEq] at heq
          exact absurd heq.1.symm hc
  | cons a as =>
      cases bs with
      | nil =>
          obtain ⟨c, rest, ha, hc⟩ := hopen a (has a (by simp))
          simp only [items, ha, List.cons_append, List.nil_append, List.cons.injEq] at heq
          exact absurd heq.1 hc
      | cons b bs =>
          simp only [items, List.append_assoc] at heq
          rw [List.forall_mem_cons] at has hbs
          obtain ⟨rfl, hrest⟩ := h has.1 hbs.1 (delimited_furtherItems as s)
            (delimited_furtherItems bs t) heq
          obtain ⟨rfl, rfl⟩ := determines_furtherItems h has.2 hbs.2 trivial trivial hrest
          exact ⟨rfl, rfl⟩

/-! ## Whole texts -/

/-- A text that consists of items alone determines them, when no item is written as nothing. -/
theorem eq_of_flatMap_eq (h : Determines valid (fun _ => True) print)
    (hne : ∀ a, valid a → print a ≠ []) {as bs : List α} (has : ∀ a ∈ as, valid a)
    (hbs : ∀ b ∈ bs, valid b) (heq : as.flatMap print = bs.flatMap print) : as = bs := by
  induction as generalizing bs with
  | nil =>
      cases bs with
      | nil => rfl
      | cons b bs =>
          rw [List.flatMap_nil, List.flatMap_cons] at heq
          exact absurd (List.append_eq_nil_iff.mp heq.symm).1 (hne b (hbs b (by simp)))
  | cons a as ih =>
      cases bs with
      | nil =>
          rw [List.flatMap_nil, List.flatMap_cons] at heq
          exact absurd (List.append_eq_nil_iff.mp heq).1 (hne a (has a (by simp)))
      | cons b bs =>
          rw [List.flatMap_cons, List.flatMap_cons] at heq
          rw [List.forall_mem_cons] at has hbs
          obtain ⟨rfl, hrest⟩ := h has.1 hbs.1 trivial trivial heq
          rw [ih has.2 hbs.2 hrest]

end Text

end SchemaCompiler
