import SchemaCompiler.Identifier
import Mathlib.Computability.RegularExpressions

/-! # Patterns of names as regular expressions -/

namespace SchemaCompiler

namespace Identifier

open RegularExpression

/-! ## Expressions -/

def letters : List Char := "abcdefghijklmnopqrstuvwxyz".toList

def capitals : List Char := "ABCDEFGHIJKLMNOPQRSTUVWXYZ".toList

def digits : List Char := "0123456789".toList

/-- Any one of some characters. -/
def oneOf (cs : List Char) : RegularExpression Char :=
  cs.foldr (fun c r => char c + r) 0

/-- The pattern of a kind of name. -/
def expression : Identifier → RegularExpression Char
  | .database => oneOf (letters ++ ['_']) * star (oneOf (letters ++ digits ++ ['_']))
  | .table => oneOf (letters ++ ['_']) * star (oneOf (letters ++ ['_']))
  | .column =>
    oneOf (letters) * (oneOf (letters ++ capitals ++ digits) *
      star (oneOf (letters ++ capitals ++ digits)))
  | .code =>
    oneOf (capitals ++ digits ++ ['_']) *
      star (oneOf (capitals ++ digits ++ ['_']))

/-- A name belongs to the language of the pattern of its kind. -/
def Matches (kind : Identifier) (name : String) : Prop :=
  name.toList ∈ kind.expression.matches'

/-! ## Languages of the parts -/

theorem mem_oneOf {cs w : List Char} : w ∈ (oneOf cs).matches' ↔ ∃ c ∈ cs, w = [c] := by
  induction cs with
  | nil => simp [oneOf]
  | cons c cs ih =>
      change w ∈ (char c + oneOf cs).matches' ↔ _
      rw [matches'_add, Language.mem_add, ih, matches'_char, List.exists_mem_cons_iff]
      exact Iff.rfl

theorem mem_star_oneOf {cs w : List Char} :
    w ∈ (star (oneOf cs)).matches' ↔ ∀ c ∈ w, c ∈ cs := by
  rw [matches'_star, Language.mem_kstar]
  constructor
  · rintro ⟨words, rfl, h⟩ c hc
    obtain ⟨word, hword, hc⟩ := List.mem_flatten.mp hc
    obtain ⟨d, hd, rfl⟩ := mem_oneOf.mp (h word hword)
    rw [List.mem_singleton.mp hc]
    exact hd
  · intro h
    refine ⟨w.map fun c => [c], ?_, ?_⟩
    · induction w with
      | nil => rfl
      | cons c w ih => simpa using ih fun d hd => h d (by simp [hd])
    · intro word hword
      obtain ⟨c, hc, rfl⟩ := List.mem_map.mp hword
      exact mem_oneOf.mpr ⟨c, h c hc, rfl⟩

theorem mem_oneOf_mul {cs w : List Char} {r : RegularExpression Char} :
    w ∈ (oneOf cs * r).matches' ↔ ∃ c rest, w = c :: rest ∧ c ∈ cs ∧ rest ∈ r.matches' := by
  rw [matches'_mul, Language.mem_mul]
  constructor
  · rintro ⟨front, hfront, rest, hrest, rfl⟩
    obtain ⟨c, hc, rfl⟩ := mem_oneOf.mp hfront
    exact ⟨c, rest, rfl, hc, hrest⟩
  · rintro ⟨c, rest, rfl, hc, hrest⟩
    exact ⟨[c], mem_oneOf.mpr ⟨c, hc, rfl⟩, rest, hrest, rfl⟩

/-! ## Classes -/

/-- A class of ASCII characters is the list of its members below 128. -/
theorem mem_iff_of_ascii {cs : List Char} {p : Char → Bool} (sound : cs.all p)
    (ascii : ∀ c, p c → c.toNat < 128) (complete : ∀ n < 128, p (Char.ofNat n) → Char.ofNat n ∈ cs)
    {c : Char} : c ∈ cs ↔ p c := by
  refine ⟨List.all_eq_true.mp sound c, ?_⟩
  intro hp
  have h := complete c.toNat (ascii c hp)
  rw [Char.ofNat_toNat] at h
  exact h hp

theorem toNat_lt_of_le {c d : Char} {bound : Nat} (h : c ≤ d) (hd : d.toNat < bound) :
    c.toNat < bound :=
  Nat.lt_of_le_of_lt h hd

@[simp] theorem mem_letters {c : Char} : c ∈ letters ↔ isLower c := by
  apply mem_iff_of_ascii (by decide) _ (by decide)
  intro c hc
  simp only [isLower, Bool.and_eq_true, decide_eq_true_eq] at hc
  exact toNat_lt_of_le hc.2 (by decide)

@[simp] theorem mem_capitals {c : Char} : c ∈ capitals ↔ isUpper c := by
  apply mem_iff_of_ascii (by decide) _ (by decide)
  intro c hc
  simp only [isUpper, Bool.and_eq_true, decide_eq_true_eq] at hc
  exact toNat_lt_of_le hc.2 (by decide)

@[simp] theorem mem_digits {c : Char} : c ∈ digits ↔ isDigit c := by
  apply mem_iff_of_ascii (by decide) _ (by decide)
  intro c hc
  simp only [isDigit, Bool.and_eq_true, decide_eq_true_eq] at hc
  exact toNat_lt_of_le hc.2 (by decide)

/-! ## Acceptance -/

theorem accepts_iff {kind : Identifier} {name : String} :
    kind.accepts name ↔ ∃ c rest, name.toList = c :: rest ∧ kind.startsWith c ∧
      (∀ d ∈ rest, kind.continuesWith d) ∧ kind.leastTail ≤ rest.length := by
  unfold accepts
  split
  · next h => simp [h]
  · next c rest h => simp [h, and_assoc]

/-- A name is accepted exactly when it matches the pattern of its kind. -/
theorem accepts_iff_matches {kind : Identifier} {name : String} :
    kind.accepts name ↔ kind.Matches name := by
  rw [accepts_iff, Matches]
  cases kind with
  | database | table | code =>
      simp only [expression, mem_oneOf_mul, mem_star_oneOf]
      simp [startsWith, continuesWith, leastTail, or_assoc]
  | column =>
      simp only [expression, mem_oneOf_mul, mem_star_oneOf]
      simp only [startsWith, continuesWith, leastTail, List.mem_append, mem_letters, mem_capitals,
        mem_digits, Bool.or_eq_true]
      constructor
      · rintro ⟨c, _ | ⟨d, rest⟩, hname, hc, hrest, hlength⟩
        · simp at hlength
        · simp only [List.mem_cons, forall_eq_or_imp] at hrest
          exact ⟨c, d :: rest, hname, hc, d, rest, rfl, hrest⟩
      · rintro ⟨c, _, hname, hc, d, rest, rfl, hrest⟩
        exact ⟨c, d :: rest, hname, hc, by simpa using hrest, by simp⟩

/-- No name holds a dot, so that a path of names falls apart into them again. -/
theorem dot_notMem_of_accepts {kind : Identifier} {name : String} (h : kind.accepts name) :
    '.' ∉ name.toList := by
  obtain ⟨c, rest, hname, hc, hrest, -⟩ := accepts_iff.mp h
  rw [hname, List.mem_cons]
  rintro (rfl | hmem)
  · cases kind <;> simp [startsWith, isLower, isUpper, isDigit] at hc
  · have := hrest _ hmem
    cases kind <;> simp [continuesWith, isLower, isUpper, isDigit] at this

end Identifier

end SchemaCompiler
