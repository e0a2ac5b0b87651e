import SchemaCompiler.EsModule.Reader
import SchemaCompiler.Proofs.EsModule.Token

/-! # The tokens of a module

The text of each part of a module spells the tokens of the part, as long as its names are words. -/

namespace SchemaCompiler

namespace EsModule

open Token

/-! ## Legal names -/

/-- A word that may name a constant. -/
structure IsConstant (s : String) : Prop where
  word : IsWord s
  free : s ∉ Reader.reservedWords

/-- An unquoted key has to be a word. -/
def Key.Legal : Key → Prop
  | .name s => IsWord s
  | .quoted _ => True

def Value.Legal : Value → Prop
  | .literal _ => True
  | .constant name => IsConstant name
  | .frozenObject members => ∀ m ∈ members, m.1.Legal
  | .frozenArray _ => True

/-- Members with legal keys and values. -/
def LegalMembers (members : List (Key × Value)) : Prop :=
  ∀ m ∈ members, m.1.Legal ∧ m.2.Legal

def Statement.Legal : Statement → Prop
  | .declare name members => IsConstant name ∧ LegalMembers members
  | .declareFrozen name members => IsConstant name ∧ LegalMembers members
  | .attachFrozen name property members => IsConstant name ∧ IsWord property ∧ LegalMembers members
  | .freeze name => IsConstant name
  | .exportFrozen members => LegalMembers members

/-! ## Tokens -/

def Key.token : Key → Token
  | .name s => .word s
  | .quoted s => .string s

def Literal.tokens : Literal → List Token
  | .bool true => [.word "true"]
  | .bool false => [.word "false"]
  | .int n => (if n < 0 then [.punctuator '-'] else []) ++ [.number n.natAbs]
  | .string s => [.string s]

section Groups

variable {α : Type} (tokens : α → List Token)

def memberTokens (m : Key × α) : List Token :=
  m.1.token :: .punctuator ':' :: tokens m.2

/-- Items between two punctuators. -/
def groupTokens (opening closing : Char) (as : List α) : List Token :=
  .punctuator opening ::
    ([.punctuator ','].intercalate (as.map tokens) ++ [.punctuator closing])

def objectTokens (members : List (Key × α)) : List Token :=
  groupTokens (memberTokens tokens) '{' '}' members

end Groups

def freezingTokens (ts : List Token) : List Token :=
  [.word "Object", .punctuator '.', .word "freeze", .punctuator '('] ++ ts ++ [.punctuator ')']

def Value.tokens : Value → List Token
  | .literal l => l.tokens
  | .constant name => [.word name]
  | .frozenObject members => freezingTokens (objectTokens Literal.tokens members)
  | .frozenArray items => freezingTokens (groupTokens Literal.tokens '[' ']' items)

/-- The tokens of a statement without its semicolon. -/
def Statement.clauseTokens : Statement → List Token
  | .declare name members =>
    [.word "const", .word name, .punctuator '='] ++ objectTokens Value.tokens members
  | .declareFrozen name members =>
    [.word "const", .word name, .punctuator '='] ++
      freezingTokens (objectTokens Value.tokens members)
  | .attachFrozen name property members =>
    [.word name, .punctuator '.', .word property, .punctuator '='] ++
      freezingTokens (objectTokens Value.tokens members)
  | .freeze name => freezingTokens [.word name]
  | .exportFrozen members =>
    [.word "export", .word "default"] ++ freezingTokens (objectTokens Value.tokens members)

def Statement.tokens (s : Statement) : List Token :=
  s.clauseTokens ++ [.punctuator ';']

/-! ## Texts spell tokens -/

theorem spells_key {k : Key} (h : k.Legal) : Spells k.text.toList [k.token] := by
  cases k with
  | name s => exact spells_word h
  | quoted s =>
      rw [Key.text, Json.quote, String.toList_ofList]
      exact (closes_quotedChars s).spells

theorem spells_int (n : Int) : Spells (toString n).toList (Literal.int n).tokens := by
  cases n with
  | ofNat n =>
      have hnot : ¬(Int.ofNat n < 0) := by simp
      have htext : (toString (Int.ofNat n)).toList = Nat.toDigits 10 n := toList_toString n
      rw [htext, Literal.tokens, if_neg hnot]
      exact spells_number n
  | negSucc n =>
      have hneg : Int.negSucc n < 0 := Int.negSucc_lt_zero n
      have htext : (toString (Int.negSucc n)).toList = ['-'] ++ Nat.toDigits 10 (n + 1) := by
        change ("-" ++ Nat.repr (n + 1)).toList = _
        rw [String.toList_append, Nat.toList_repr]
        rfl
      rw [htext, Literal.tokens, if_pos hneg]
      exact (closes_punctuator (by decide)).append_spells (spells_number (n + 1))

theorem spells_literal (l : Literal) : Spells l.text.toList l.tokens := by
  cases l with
  | bool b =>
      cases b with
      | true => exact spells_word (s := "true") (by decide)
      | false => exact spells_word (s := "false") (by decide)
  | int n => exact spells_int n
  | string s =>
      rw [Literal.text, Json.quote, String.toList_ofList]
      exact (closes_quotedChars s).spells

theorem spells_member {α : Type} {text : α → String} {tokens : α → List Token} {m : Key × α}
    (hkey : m.1.Legal) (h : Spells (text m.2).toList (tokens m.2)) :
    Spells (m.1.text ++ ":" ++ text m.2).toList (memberTokens tokens m) := by
  rw [String.toList_append, String.toList_append]
  exact ((spells_key hkey).punctuated (by decide)).append_spells h

/-- Items between two punctuators are closed. -/
theorem closes_group {α : Type} {text : α → String} {tokens : α → List Token} {as : List α}
    {opening closing : Char} (h : ∀ a ∈ as, Spells (text a).toList (tokens a))
    (hopening : opening ∈ punctuators) (hclosing : closing ∈ punctuators) :
    Closes ([opening] ++ (",".intercalate (as.map text)).toList ++ [closing])
      (groupTokens tokens opening closing as) := by
  rw [String.toList_intercalate, List.map_map, List.append_assoc]
  exact (closes_punctuator hopening).append (closes_intercalate h hclosing)

theorem closes_object {α : Type} {text : α → String} {tokens : α → List Token}
    {members : List (Key × α)}
    (h : ∀ m ∈ members, m.1.Legal ∧ Spells (text m.2).toList (tokens m.2)) :
    Closes (objectText text members).toList (objectTokens tokens members) := by
  have hgroup : Closes (['{'] ++ (",".intercalate (members.map fun m =>
      m.1.text ++ ":" ++ text m.2)).toList ++ ['}']) (objectTokens tokens members) :=
    closes_group (fun m hm => spells_member (h m hm).1 (h m hm).2) (by decide) (by decide)
  rw [objectText, membersText, String.toList_append, String.toList_append]
  exact hgroup

theorem closes_freezing {s : String} {ts : List Token} (h : Spells s.toList ts) :
    Closes (freezing s).toList (freezingTokens ts) := by
  have hobject : Closes "Object.freeze(".toList
      [.word "Object", .punctuator '.', .word "freeze", .punctuator '('] :=
    ((spells_word (s := "Object") (by decide)).punctuated (c := '.') (by decide)).append
    ((spells_word (s := "freeze") (by decide)).punctuated (c := '(') (by decide))
  rw [freezing, String.toList_append, String.toList_append, freezingTokens, List.append_assoc,
    List.append_assoc]
  exact hobject.append (h.punctuated (by decide))

theorem spells_value {v : Value} (h : v.Legal) : Spells v.text.toList v.tokens := by
  cases v with
  | literal l => exact spells_literal l
  | constant name => exact spells_word h.word
  | frozenObject members =>
      exact (closes_freezing (closes_object fun m hm => ⟨h m hm, spells_literal m.2⟩).spells).spells
  | frozenArray items =>
      have hgroup : Closes (['['] ++ (",".intercalate (items.map Literal.text)).toList ++ [']'])
          (groupTokens Literal.tokens '[' ']' items) :=
        closes_group (fun l _ => spells_literal l) (by decide) (by decide)
      refine (closes_freezing ?_).spells
      rw [arrayText, String.toList_append, String.toList_append]
      exact hgroup.spells

theorem closes_members {members : List (Key × Value)} (h : LegalMembers members) :
    Closes (objectText Value.text members).toList (objectTokens Value.tokens members) :=
  closes_object fun m hm => ⟨(h m hm).1, spells_value (h m hm).2⟩

theorem closes_frozenMembers {members : List (Key × Value)} (h : LegalMembers members) :
    Closes (freezing (objectText Value.text members)).toList
      (freezingTokens (objectTokens Value.tokens members)) :=
  closes_freezing (closes_members h).spells

/-- What a declaration starts with. -/
theorem closes_binding {name : String} (h : IsWord name) :
    Closes ("const " ++ name ++ "=").toList [.word "const", .word name, .punctuator '='] := by
  have hkeyword : IsWord "const" := by decide
  rw [String.toList_append, String.toList_append, List.append_assoc]
  exact (spells_word hkeyword).blank.append ((spells_word h).punctuated (by decide))

theorem closes_export : Closes "export default ".toList [.word "export", .word "default"] := by
  have hexport : IsWord "export" := by decide
  have hdefault : IsWord "default" := by decide
  exact (spells_word hexport).blank.append (spells_word hdefault).blank

/-- A statement is closed by its semicolon. -/
theorem closes_statement {s : Statement} (h : s.Legal) : Closes s.text.toList s.tokens := by
  cases s with
  | declare name members =>
      rw [Statement.text, String.toList_append, String.toList_append]
      exact ((closes_binding h.1.word).append (closes_members h.2)).spells.punctuated (by decide)
  | declareFrozen name members =>
      rw [Statement.text, String.toList_append, String.toList_append]
      exact ((closes_binding h.1.word).append (closes_frozenMembers h.2)).spells.punctuated
        (by decide)
  | attachFrozen name property members =>
      have htarget : Closes (name ++ "." ++ property ++ "=").toList
          [.word name, .punctuator '.', .word property, .punctuator '='] := by
        rw [String.toList_append, String.toList_append, String.toList_append, List.append_assoc]
        exact ((spells_word h.1.word).punctuated (by decide)).append
          ((spells_word h.2.1).punctuated (by decide))
      rw [Statement.text, String.toList_append, String.toList_append]
      exact (htarget.append (closes_frozenMembers h.2.2)).spells.punctuated (by decide)
  | freeze name =>
      rw [Statement.text, String.toList_append]
      exact (closes_freezing (spells_word h.word)).spells.punctuated (by decide)
  | exportFrozen members =>
      rw [Statement.text, String.toList_append, String.toList_append]
      exact (closes_export.append (closes_frozenMembers h)).spells.punctuated (by decide)

theorem closes_statements {statements : List Statement} (h : ∀ s ∈ statements, s.Legal) :
    Closes (String.join (statements.map (·.text))).toList
      (statements.flatMap Statement.tokens) := by
  induction statements with
  | nil => exact closes_nil
  | cons s statements ih =>
      rw [List.map_cons, String.join_cons, String.toList_append, List.flatMap_cons]
      exact (closes_statement (h s List.mem_cons_self)).append
        (ih fun t ht => h t (List.mem_cons_of_mem s ht))

/-- A module with legal names is read as the tokens of its statements. -/
theorem lex_text {m : EsModule} (h : ∀ s ∈ m.statements, s.Legal) :
    lex m.text.toList = some (m.statements.flatMap Statement.tokens) := by
  have hend : lex "\n".toList = some [] := by
    change lex ['\n'] = some []
    rw [lex_newline, lex]
  rw [text, String.toList_append, closes_statements h, hend, Option.map_some, List.append_nil]

end EsModule

end SchemaCompiler
