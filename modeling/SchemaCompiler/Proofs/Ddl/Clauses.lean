import SchemaCompiler.Proofs.Ddl.Quoting
import Mathlib

/-! # Clauses of a table

The parts of a type clause are told apart by the letter behind their blank, and the constraints of a table by
the letter they start with. Each part is determined by its text in front of whatever may follow it. -/

namespace SchemaCompiler

namespace Ddl

open Text

/-! ## Type clauses -/

/-- The characters that end a word of a clause. -/
def delimits (c : Char) : Bool :=
  c = ' ' || c = ',' || c = ')'

/-- A data type: a word, or a word with a length in parentheses. -/
inductive IsDataType (s : String) : Prop where
  | word (hword : ∀ c ∈ s.toList, delimits c = false ∧ c ≠ '(')
  | sized (run : List Char) (hrun : ∀ c ∈ run, delimits c = false) (hopen : '(' ∈ run)
      (hs : s.toList = run ++ [')'])

/-- A type clause whose parts are words. -/
structure TypeClause.IsPlain (t : TypeClause) : Prop where
  dataType : IsDataType t.dataType
  default : ∀ literal, t.default = some literal → ∀ c ∈ literal.toList, delimits c = false

theorem determines_dataType : Determines IsDataType (fun s => ∀ c, s.head? = some c → delimits c)
    String.toList := by
  have hrun := determines_run delimits
  have hclose : ∀ s : List Char, ∀ c, (')' :: s).head? = some c → delimits c := by
    intro s c hc
    cases hc
    rfl
  intro a b ha hb s t hs ht h
  cases ha with
  | word ha =>
      cases hb with
      | word hb =>
          exact determines_word delimits (fun c hc => (ha c hc).1) (fun c hc => (hb c hc).1) hs ht h
      | sized run hb hopen hlist =>
          rw [hlist, List.append_assoc] at h
          obtain ⟨hab, -⟩ := hrun (fun c hc => (ha c hc).1) hb hs (hclose t) h
          exact absurd rfl (ha '(' (hab ▸ hopen)).2
  | sized run ha hopen hlist =>
      cases hb with
      | word hb =>
          rw [hlist, List.append_assoc] at h
          obtain ⟨hab, -⟩ := hrun ha (fun c hc => (hb c hc).1) (hclose s) ht h
          exact absurd rfl (hb '(' (hab ▸ hopen)).2
      | sized run' hb hopen' hlist' =>
          rw [hlist, hlist', List.append_assoc, List.append_assoc] at h
          obtain ⟨hab, hst⟩ := hrun ha hb (hclose s) (hclose t) h
          refine ⟨String.toList_inj.mp ?_, (List.cons.inj hst).2⟩
          rw [hlist, hlist', show run = run' from hab]

/-- What may stand behind a part of a type clause: a later part, which is known by the letter behind its
blank, or the end of the clause. -/
def Continues (letters : List Char) (s : List Char) : Prop :=
  Delimited s ∨ ∃ letter ∈ letters, [' ', letter] <+: s

theorem Continues.delimits {letters s : List Char} (h : Continues letters s) (c : Char)
    (hc : s.head? = some c) : delimits c := by
  rcases h with (h | h) | ⟨letter, -, rest, rfl⟩
  · cases h.symm.trans hc
    rfl
  · cases h.symm.trans hc
    rfl
  · cases hc
    rfl

theorem Continues.not_starts {letters s : List Char} (h : Continues letters s) {letter : Char}
    (hletter : letter ∉ letters) (word : List Char) : ¬(' ' :: letter :: word) <+: s := by
  rintro ⟨rest, rfl⟩
  rcases h with (h | h) | ⟨other, hother, rest', heq⟩
  · simp at h
  · simp at h
  · simp only [List.cons_append, List.nil_append, List.cons.injEq, true_and] at heq
    exact hletter (heq.1 ▸ hother)

theorem Continues.cons {letters s : List Char} (h : Continues letters s) (letter : Char) :
    Continues (letter :: letters) s := by
  rcases h with h | ⟨other, hother, hstart⟩
  · exact .inl h
  · exact .inr ⟨other, List.mem_cons_of_mem _ hother, hstart⟩

theorem Continues.optionalWord {letters s : List Char} (h : Continues letters s) (letter : Char)
    (word : List Char) (present : Bool) :
    Continues (letter :: letters) (Text.optionalWord (' ' :: letter :: word) present ++ s) := by
  cases present with
  | true => exact .inr ⟨letter, by simp, word ++ s, rfl⟩
  | false => exact h.cons letter

/-- The part of a type clause that holds the default. -/
def defaultPart : Option String → List Char
  | none => []
  | some literal => ' ' :: 'D' :: ("EFAULT ".toList ++ literal.toList)

theorem Continues.defaultPart {letters s : List Char} (h : Continues letters s)
    (default : Option String) : Continues ('D' :: letters) (Ddl.defaultPart default ++ s) := by
  cases default with
  | some literal => exact .inr ⟨'D', by simp, "EFAULT ".toList ++ literal.toList ++ s, rfl⟩
  | none => exact h.cons 'D'

theorem determines_defaultPart {letters : List Char} (hletters : 'D' ∉ letters) :
    Determines (fun default => ∀ literal, default = some literal →
      ∀ c ∈ literal.toList, delimits c = false) (Continues letters) defaultPart := by
  intro a b ha hb s t hs ht h
  cases a with
  | none =>
      cases b with
      | none => exact ⟨rfl, h⟩
      | some m =>
          refine absurd ⟨m.toList ++ t, ?_⟩ (hs.not_starts hletters "EFAULT ".toList)
          rw [show s = _ from h, defaultPart, List.cons_append, List.cons_append, List.cons_append,
            List.cons_append, List.append_assoc]
  | some l =>
      cases b with
      | none =>
          refine absurd ⟨l.toList ++ s, ?_⟩ (ht.not_starts hletters "EFAULT ".toList)
          rw [show t = _ from h.symm, defaultPart, List.cons_append, List.cons_append,
            List.cons_append, List.cons_append, List.append_assoc]
      | some m =>
          simp only [defaultPart, List.cons_append, List.append_assoc, List.cons.injEq, true_and,
            List.append_cancel_left_eq] at h
          obtain ⟨hlm, hst⟩ := determines_word delimits (ha l rfl) (hb m rfl) hs.delimits ht.delimits h
          exact ⟨congrArg some hlm, hst⟩

theorem TypeClause.toList_text (t : TypeClause) : t.text.toList =
    t.dataType.toList ++ (optionalWord (' ' :: 'U' :: "NSIGNED".toList) t.unsigned ++
      (optionalWord (' ' :: 'N' :: "OT NULL".toList) t.notNull ++ (defaultPart t.default ++
        optionalWord (' ' :: 'A' :: "UTO_INCREMENT".toList) t.autoIncrement))) := by
  have hunsigned : (if t.unsigned then " UNSIGNED" else "").toList =
      optionalWord (' ' :: 'U' :: "NSIGNED".toList) t.unsigned := by
    cases t.unsigned <;> rfl
  have hnull : (if t.notNull then " NOT NULL" else "").toList =
      optionalWord (' ' :: 'N' :: "OT NULL".toList) t.notNull := by
    cases t.notNull <;> rfl
  have hnumbered : (if t.autoIncrement then " AUTO_INCREMENT" else "").toList =
      optionalWord (' ' :: 'A' :: "UTO_INCREMENT".toList) t.autoIncrement := by
    cases t.autoIncrement <;> rfl
  rw [TypeClause.text, String.toList_append, String.toList_append, String.toList_append,
    String.toList_append, hunsigned, hnull, hnumbered]
  cases t.default with
  | none => simp only [defaultPart, String.toList_empty, List.append_assoc, List.append_nil,
      List.nil_append]
  | some literal =>
      have hword : " DEFAULT ".toList = ' ' :: 'D' :: "EFAULT ".toList := rfl
      simp only [defaultPart, String.toList_append, hword, List.append_assoc, List.cons_append]

theorem determines_typeClause :
    Determines TypeClause.IsPlain Delimited fun t => t.text.toList := by
  intro a b ha hb s t hs ht h
  simp only [TypeClause.toList_text, List.append_assoc] at h
  -- what stands behind each part, from the last one to the first
  have hend : ∀ {r}, Delimited r → Continues [] r := Or.inl
  have hnumbered := fun (c : TypeClause) {r} (hr : Delimited r) =>
    (hend hr).optionalWord 'A' "UTO_INCREMENT".toList c.autoIncrement
  have hdefault := fun (c : TypeClause) {r} (hr : Delimited r) =>
    (hnumbered c hr).defaultPart c.default
  have hnull := fun (c : TypeClause) {r} (hr : Delimited r) =>
    (hdefault c hr).optionalWord 'N' "OT NULL".toList c.notNull
  have hunsigned := fun (c : TypeClause) {r} (hr : Delimited r) =>
    (hnull c hr).optionalWord 'U' "NSIGNED".toList c.unsigned
  obtain ⟨hdataType, h⟩ := determines_dataType ha.dataType hb.dataType (hunsigned a hs).delimits
    (hunsigned b ht).delimits h
  obtain ⟨hsign, h⟩ := determines_optionalWord _ trivial trivial
    ((hnull a hs).not_starts (by decide) _) ((hnull b ht).not_starts (by decide) _) h
  obtain ⟨hnotNull, h⟩ := determines_optionalWord _ trivial trivial
    ((hdefault a hs).not_starts (by decide) _) ((hdefault b ht).not_starts (by decide) _) h
  obtain ⟨hliteral, h⟩ := determines_defaultPart (by decide) ha.default hb.default (hnumbered a hs)
    (hnumbered b ht) h
  obtain ⟨hautoIncrement, h⟩ := determines_optionalWord _ trivial trivial
    ((hend hs).not_starts List.not_mem_nil _) ((hend ht).not_starts List.not_mem_nil _) h
  refine ⟨?_, h⟩
  cases a
  cases b
  simp_all

/-! ## Columns and constraints -/

theorem determines_columnDefinition : Determines (fun c : ColumnDefinition => c.type.IsPlain) Delimited
    fun c => c.text.toList := by
  intro a b ha hb s t hs ht h
  simp only [ColumnDefinition.text, String.toList_append, List.append_assoc] at h
  obtain ⟨hname, h⟩ := determines_quoteIdentifier trivial trivial (by simp [accent])
    (by simp [accent]) h
  obtain ⟨htype, h⟩ := determines_typeClause ha hb hs ht (List.append_cancel_left h)
  refine ⟨?_, h⟩
  cases a
  cases b
  simp_all

/-- Whether a character ends an action. -/
def closes (c : Char) : Bool :=
  c = ',' || c = ')'

/-- A constraint whose action, if any, shows where it ends. -/
def Constraint.IsPlain : Constraint → Prop
  | .foreignKey _ _ _ _ onDelete => ∀ c ∈ onDelete.toList, closes c = false
  | _ => True

theorem determines_action : Determines (fun action : String => ∀ c ∈ action.toList, closes c = false)
    Delimited String.toList := by
  have hcloses : ∀ {s}, Delimited s → ∀ c, s.head? = some c → closes c := by
    rintro s (h | h) c hc <;> cases h.symm.trans hc <;> rfl
  exact fun _ _ ha hb _ _ hs ht h => determines_word closes ha hb (hcloses hs) (hcloses ht) h

theorem toList_key (words : String) (names : List String) :
    (words ++ identifierList names ++ ")").toList =
      words.toList ++ items (fun name => (quoteIdentifier name).toList) names := by
  rw [← intercalate_append_close, identifierList, String.toList_append, String.toList_append,
    String.toList_intercalate, List.map_map, List.append_assoc]
  rfl

/-- The columns of a key are determined by their text behind any words. -/
theorem determines_key (words : String) : Determines (fun _ : List String => True) (fun _ => True)
    fun names => (words ++ identifierList names ++ ")").toList := by
  have hdelimited : ∀ {s : List Char}, Delimited s → s.head? ≠ some accent := by
    rintro s (hs | hs) <;> simp [hs, accent]
  have hnames : Determines (fun _ : String => True) Delimited
      fun name => (quoteIdentifier name).toList :=
    fun _ _ _ _ _ _ hs ht h =>
      determines_quoteIdentifier trivial trivial (hdelimited hs) (hdelimited ht) h
  have hopen : ∀ name : String, True →
      ∃ c rest, (quoteIdentifier name).toList = c :: rest ∧ c ≠ ')' :=
    fun name _ => ⟨accent, _, toList_quoteIdentifier name, by decide⟩
  intro a b _ _ s t _ _ h
  simp only [toList_key, List.append_assoc, List.append_cancel_left_eq] at h
  exact determines_items hnames hopen (by simp) (by simp) trivial trivial h

/-- The database in front of a table that a reference names. -/
def qualifier : Option String → String
  | some database => quoteIdentifier database ++ "."
  | none => ""

/-- The table that a reference names, with its database where that is given. -/
def targetText (target : Option String × String) : String :=
  qualifier target.1 ++ quoteIdentifier target.2

theorem targetText_none (table : String) : targetText (none, table) = quoteIdentifier table :=
  String.empty_append

theorem toList_targetText_some (database table : String) :
    (targetText (some database, table)).toList =
      (quoteIdentifier database).toList ++ '.' :: (quoteIdentifier table).toList := by
  simp only [targetText, qualifier, String.toList_append, List.append_assoc]
  rfl

theorem determines_targetText : Determines (fun _ : Option String × String => True)
    (fun s => s.head? = some ' ') fun target => (targetText target).toList := by
  have hname : ∀ (name name' : String) {u v : List Char}, u.head? ≠ some accent →
      v.head? ≠ some accent →
      (quoteIdentifier name).toList ++ u = (quoteIdentifier name').toList ++ v →
      name = name' ∧ u = v :=
    fun _ _ _ _ hu hv h => determines_quoteIdentifier trivial trivial hu hv h
  have hdot : ∀ u : List Char, ('.' :: u).head? ≠ some accent := fun u => by simp [accent]
  rintro ⟨database, table⟩ ⟨database', table'⟩ - - s t hs ht h
  have hs' : s.head? ≠ some accent := by simp [hs, accent]
  have ht' : t.head? ≠ some accent := by simp [ht, accent]
  -- behind the first name stands a dot when it is the name of a database
  cases database with
  | none =>
      cases database' with
      | none =>
          simp only [targetText_none] at h
          obtain ⟨rfl, hst⟩ := hname _ _ hs' ht' h
          exact ⟨rfl, hst⟩
      | some database' =>
          simp only [targetText_none, toList_targetText_some, List.append_assoc, List.cons_append] at h
          obtain ⟨-, hst⟩ := hname _ _ hs' (hdot _) h
          simp [hst] at hs
  | some database =>
      cases database' with
      | none =>
          simp only [targetText_none, toList_targetText_some, List.append_assoc, List.cons_append] at h
          obtain ⟨-, hst⟩ := hname _ _ (hdot _) ht' h
          simp [← hst] at ht
      | some database' =>
          simp only [toList_targetText_some, List.append_assoc, List.cons_append] at h
          obtain ⟨rfl, htable⟩ := hname _ _ (hdot _) (hdot _) h
          obtain ⟨rfl, hst⟩ := hname _ _ hs' ht' (List.cons.inj htable).2
          exact ⟨rfl, hst⟩

theorem Constraint.toList_text_foreignKey (column : String) (database : Option String)
    (table target onDelete : String) :
    (Constraint.foreignKey column database table target onDelete).text.toList =
      "FOREIGN KEY (".toList ++ ((quoteIdentifier column).toList ++ (") REFERENCES ".toList ++
        ((targetText (database, table)).toList ++ (" (".toList ++ ((quoteIdentifier target).toList ++
          (") ON DELETE ".toList ++ onDelete.toList)))))) := by
  have htext : (Constraint.foreignKey column database table target onDelete).text =
      "FOREIGN KEY (" ++ quoteIdentifier column ++ ") REFERENCES " ++ qualifier database ++
      quoteIdentifier table ++ " (" ++ quoteIdentifier target ++ ") ON DELETE " ++ onDelete := by
    cases database <;> rfl
  simp only [htext, targetText, String.toList_append, List.append_assoc]

theorem head?_words {words : String} {c : Char} (h : words.toList.head? = some c) (s : List Char) :
    (words.toList ++ s).head? = some c := by
  rw [List.head?_append, h, Option.some_or]

theorem determines_foreignKey {column column' : String} {database database' : Option String}
    {table table' target target' onDelete onDelete' : String} {s t : List Char}
    (ha : ∀ c ∈ onDelete.toList, closes c = false) (hb : ∀ c ∈ onDelete'.toList, closes c = false)
    (hs : Delimited s) (ht : Delimited t)
    (h : (Constraint.foreignKey column database table target onDelete).text.toList ++ s =
      (Constraint.foreignKey column' database' table' target' onDelete').text.toList ++ t) :
    Constraint.foreignKey column database table target onDelete =
      .foreignKey column' database' table' target' onDelete' ∧ s = t := by
  have hclose : ∀ u : List Char, u.head? = some ')' → u.head? ≠ some accent := by
    intro u hu
    simp [hu, accent]
  have hreferences : ∀ u, (") REFERENCES ".toList ++ u).head? = some ')' := head?_words (by rfl)
  have haction : ∀ u, (") ON DELETE ".toList ++ u).head? = some ')' := head?_words (by rfl)
  have hopen : ∀ u, (" (".toList ++ u).head? = some ' ' := head?_words (by rfl)
  simp only [Constraint.toList_text_foreignKey, List.append_assoc, List.append_cancel_left_eq] at h
  obtain ⟨rfl, hreference⟩ := determines_quoteIdentifier trivial trivial (hclose _ (hreferences _))
    (hclose _ (hreferences _)) h
  obtain ⟨htarget, hcolumn⟩ := determines_targetText trivial trivial (hopen _) (hopen _)
    (List.append_cancel_left hreference)
  cases htarget
  obtain ⟨rfl, hend⟩ := determines_quoteIdentifier trivial trivial (hclose _ (haction _))
    (hclose _ (haction _)) (List.append_cancel_left hcolumn)
  obtain ⟨rfl, hst⟩ := determines_action ha hb hs ht (List.append_cancel_left hend)
  exact ⟨rfl, hst⟩

/-- The letter that a constraint starts with. -/
def Constraint.initial : Constraint → Char
  | .primaryKey _ => 'P'
  | .unique _ => 'U'
  | .index _ => 'I'
  | .foreignKey .. => 'F'

theorem Constraint.head?_text (k : Constraint) : k.text.toList.head? = some k.initial := by
  have hkey : ∀ (words : String) (names : List String) {c : Char}, words.toList.head? = some c →
      (words ++ identifierList names ++ ")").toList.head? = some c := by
    intro words names c h
    rw [toList_key]
    exact head?_words h _
  cases k with
  | primaryKey columns => exact hkey "PRIMARY KEY (" columns (by rfl)
  | unique columns => exact hkey "UNIQUE KEY (" columns (by rfl)
  | index columns => exact hkey "INDEX (" columns (by rfl)
  | foreignKey column database table target onDelete =>
      rw [toList_text_foreignKey]
      exact head?_words (by rfl) _

theorem determines_constraint : Determines Constraint.IsPlain Delimited fun k => k.text.toList := by
  intro a b ha hb s t hs ht h
  have hinitial : a.initial = b.initial := by
    have hhead := congrArg List.head? h
    simpa only [List.head?_append, Constraint.head?_text, Option.some_or, Option.some.injEq] using hhead
  -- only constraints of one form start with the same letter
  cases a with
  | primaryKey columns =>
      cases b with
      | primaryKey columns' =>
          obtain ⟨rfl, hst⟩ := determines_key "PRIMARY KEY (" trivial trivial trivial trivial h
          exact ⟨rfl, hst⟩
      | unique | index | foreignKey => simp [Constraint.initial] at hinitial
  | unique columns =>
      cases b with
      | unique columns' =>
          obtain ⟨rfl, hst⟩ := determines_key "UNIQUE KEY (" trivial trivial trivial trivial h
          exact ⟨rfl, hst⟩
      | primaryKey | index | foreignKey => simp [Constraint.initial] at hinitial
  | index columns =>
      cases b with
      | index columns' =>
          obtain ⟨rfl, hst⟩ := determines_key "INDEX (" trivial trivial trivial trivial h
          exact ⟨rfl, hst⟩
      | primaryKey | unique | foreignKey => simp [Constraint.initial] at hinitial
  | foreignKey =>
      cases b with
      | foreignKey => exact determines_foreignKey ha hb hs ht h
      | primaryKey | unique | index => simp [Constraint.initial] at hinitial

end Ddl

end SchemaCompiler
