import SchemaCompiler.Proofs.EsModule.Spelling

/-! # Modules are read back from their text

Each reader finds its part in the tokens of the part, whatever stands behind them. -/

namespace SchemaCompiler

namespace EsModule

namespace Reader

/-- A reader finds something in front of any other tokens. -/
def Reads {α : Type} (reader : Reader α) (ts : List Token) (a : α) : Prop :=
  ∀ rest, reader (ts ++ rest) = some (a, rest)

/-! ## Parts -/

theorem reads_literal (l : Literal) : Reads literal? l.tokens l := by
  intro rest
  cases l with
  | bool b => cases b <;> rfl
  | int n =>
      by_cases hneg : n < 0
      · have hne : n.natAbs ≠ 0 := by omega
        have hvalue : -(n.natAbs : Int) = n := by omega
        rw [Literal.tokens, if_pos hneg]
        simp only [List.cons_append, List.nil_append, literal?, if_neg hne, hvalue]
      · have hvalue : (n.natAbs : Int) = n := by omega
        rw [Literal.tokens, if_neg hneg]
        simp only [List.cons_append, List.nil_append, literal?, hvalue]
  | string s => rfl

theorem reads_key (k : Key) : Reads key? [k.token] k := by
  intro rest
  cases k with
  | name s => rfl
  | quoted s => rfl

theorem reads_constant {name : String} (h : IsConstant name) : Reads constant? [.word name] name := by
  intro rest
  simp [constant?, h.free]

theorem reads_member {α : Type} {value? : Reader α} {tokens : α → List Token} {m : Key × α}
    (h : Reads value? (tokens m.2) m.2) : Reads (member? value?) (memberTokens tokens m) m := by
  intro rest
  have hkey := reads_key m.1 (.punctuator ':' :: (tokens m.2 ++ rest))
  rw [List.singleton_append] at hkey
  rw [memberTokens, List.cons_append, List.cons_append, member?, hkey]
  simp only [h rest, Option.map_some]

/-! ## Groups -/

section Groups

variable {α : Type} {item? : Reader α} {tokens : α → List Token} {opening closing : Char}

theorem reads_sequence (hcomma : closing ≠ ',') {a : α} {as : List α}
    (h : ∀ x ∈ a :: as, Reads item? (tokens x) x) :
    Reads (sequence? closing item?)
      ([.punctuator ','].intercalate ((a :: as).map tokens) ++ [.punctuator closing]) (a :: as) := by
  intro rest
  induction as generalizing a with
  | nil =>
      have hitem := h a List.mem_cons_self (.punctuator closing :: rest)
      rw [List.map_cons, List.map_nil, List.intercalate_singleton, List.append_assoc,
        List.singleton_append, sequence?, hitem]
      simp
  | cons b as ih =>
      have htail := ih fun x hx => h x (List.mem_cons_of_mem a hx)
      generalize hts : [Token.punctuator ','].intercalate ((b :: as).map tokens) ++
        [.punctuator closing] ++ rest = ts at htail
      have hsplit : [Token.punctuator ','].intercalate ((a :: b :: as).map tokens) ++
          [.punctuator closing] ++ rest = tokens a ++ .punctuator ',' :: ts := by
        rw [← hts]
        simp [List.intercalate_cons_cons]
      have hitem := h a List.mem_cons_self (.punctuator ',' :: ts)
      have hshorter : ts.length < (tokens a ++ .punctuator ',' :: ts).length := by
        simp only [List.length_append, List.length_cons]
        omega
      rw [hsplit, sequence?, hitem]
      simp only [hcomma.symm, hshorter, if_false, dif_pos, and_self, htail, Option.map_some]

/-- Items between two punctuators are read, unless an item looks like the closing one. -/
theorem reads_group (hcomma : closing ≠ ',') {as : List α}
    (hclosing : ∀ ts, item? (.punctuator closing :: ts) = none)
    (h : ∀ a ∈ as, Reads item? (tokens a) a) :
    Reads (enclosed? opening closing item?) (groupTokens tokens opening closing as) as := by
  intro rest
  rw [groupTokens, List.cons_append, enclosed?, if_pos rfl]
  cases as with
  | nil => simp
  | cons a as =>
      have hsequence := reads_sequence hcomma h rest
      have hopen : ([Token.punctuator ','].intercalate ((a :: as).map tokens) ++
          [Token.punctuator closing] ++ rest).head? ≠ some (Token.punctuator closing) := by
        intro hhead
        obtain ⟨ts, hts⟩ := List.head?_eq_some_iff.mp hhead
        rw [hts, sequence?, hclosing] at hsequence
        cases hsequence
      rw [if_neg hopen]
      exact hsequence

theorem reads_object {value? : Reader α} {members : List (Key × α)}
    (h : ∀ m ∈ members, Reads value? (tokens m.2) m.2) :
    Reads (object? value?) (objectTokens tokens members) members :=
  reads_group (by decide) (fun _ => rfl) fun m hm => reads_member (h m hm)

theorem reads_frozen {argument? : Reader α} {ts : List Token} {a : α} (h : Reads argument? ts a) :
    Reads (frozen? argument?) (freezingTokens ts) a := by
  intro rest
  have hargument := h (.punctuator ')' :: rest)
  simp only [freezingTokens, List.cons_append, List.nil_append, List.append_assoc, frozen?, hargument]

end Groups

/-! ## Values -/

theorem reads_array (items : List Literal) :
    Reads array? (groupTokens Literal.tokens '[' ']' items) items :=
  reads_group (by decide) (fun _ => rfl) fun l _ => reads_literal l

/-- A word that is not reserved is no literal. -/
theorem literal?_word {name : String} (h : name ∉ reservedWords) (rest : List Token) :
    literal? (.word name :: rest) = none := by
  have htrue : name ≠ "true" := by
    rintro rfl
    exact h (by decide)
  have hfalse : name ≠ "false" := by
    rintro rfl
    exact h (by decide)
  unfold literal?
  split <;> simp_all

theorem literal?_freezing (ts rest : List Token) :
    literal? (freezingTokens ts ++ rest) = none := by
  rfl

/-- Nothing but a call that freezes starts with the object that it is a method of. -/
theorem frozen?_word {α : Type} {argument? : Reader α} {name : String} (h : name ∉ reservedWords)
    (rest : List Token) : frozen? argument? (.word name :: rest) = none := by
  have hobject : name ≠ "Object" := by
    rintro rfl
    exact h (by decide)
  unfold frozen?
  split
  · simp_all
  · rfl

theorem reads_value {v : Value} (h : v.Legal) : Reads value? v.tokens v := by
  intro rest
  cases v with
  | literal l => simp only [value?, Value.tokens, reads_literal l rest]
  | constant name =>
      have hconstant := reads_constant h rest
      rw [List.singleton_append] at hconstant
      simp only [value?, Value.tokens, List.singleton_append, literal?_word h.free,
        frozen?_word h.free, hconstant, Option.map_some]
  | frozenObject members =>
      have hcontainer : Reads container? (objectTokens Literal.tokens members)
          (.frozenObject members) := by
        intro rest
        have hobject := reads_object (fun (m : Key × Literal) (_ : m ∈ members) =>
          reads_literal m.2) rest
        simp only [container?, hobject]
      simp only [value?, Value.tokens, literal?_freezing, reads_frozen hcontainer rest]
  | frozenArray items =>
      have hcontainer : Reads container? (groupTokens Literal.tokens '[' ']' items)
          (.frozenArray items) := by
        intro rest
        have hobject : object? literal? (groupTokens Literal.tokens '[' ']' items ++ rest) = none :=
          rfl
        simp only [container?, hobject, reads_array items rest, Option.map_some]
      simp only [value?, Value.tokens, literal?_freezing, reads_frozen hcontainer rest]

/-! ## Statements -/

variable {members : List (Key × Value)}

theorem reads_members (h : LegalMembers members) :
    Reads (object? value?) (objectTokens Value.tokens members) members :=
  reads_object fun m hm => reads_value (h m hm).2

theorem reads_frozenMembers (h : LegalMembers members) :
    Reads (frozen? (object? value?)) (freezingTokens (objectTokens Value.tokens members)) members :=
  reads_frozen (reads_members h)

theorem reads_clause {s : Statement} (h : s.Legal) : Reads clause? s.clauseTokens s := by
  intro rest
  cases s with
  | declare name members =>
      have hconstant := reads_constant h.1
        (.punctuator '=' :: (objectTokens Value.tokens members ++ rest))
      rw [List.singleton_append] at hconstant
      have hplain : frozen? (object? value?) (objectTokens Value.tokens members ++ rest) = none := rfl
      simp only [Statement.clauseTokens, List.cons_append, List.nil_append, clause?, declaration?,
        hconstant, hplain, reads_members h.2 rest, Option.map_some]
  | declareFrozen name members =>
      have hconstant := reads_constant h.1
        (.punctuator '=' :: (freezingTokens (objectTokens Value.tokens members) ++ rest))
      rw [List.singleton_append] at hconstant
      simp only [Statement.clauseTokens, List.cons_append, List.nil_append, clause?, declaration?,
        hconstant, reads_frozenMembers h.2 rest]
  | attachFrozen name property members =>
      have hconstant := reads_constant h.1 (.punctuator '.' :: .word property :: .punctuator '=' ::
        (freezingTokens (objectTokens Value.tokens members) ++ rest))
      rw [List.singleton_append] at hconstant
      have hconst : name ≠ "const" := by
        rintro rfl
        exact h.1.free (by decide)
      have hexport : name ≠ "export" := by
        rintro rfl
        exact h.1.free (by decide)
      simp only [Statement.clauseTokens, List.cons_append, List.nil_append]
      rw [clause?]
      · simp only [frozen?_word h.1.free, assignment?, hconstant, reads_frozenMembers h.2.2 rest,
          Option.map_some]
      · simp_all
      · simp_all
  | freeze name =>
      have hfreeze := reads_frozen (reads_constant h) rest
      simp only [Statement.clauseTokens]
      rw [clause?]
      · simp only [hfreeze]
      · simp [freezingTokens]
      · simp [freezingTokens]
  | exportFrozen members =>
      simp only [Statement.clauseTokens, List.cons_append, List.nil_append, clause?,
        reads_frozenMembers h rest, Option.map_some]

theorem statements?_tokens {statements : List Statement} (h : ∀ s ∈ statements, s.Legal) :
    statements? (statements.flatMap Statement.tokens) = some statements := by
  induction statements with
  | nil => rw [List.flatMap_nil, statements?, if_pos rfl]
  | cons s statements ih =>
      have hclause := reads_clause (h s List.mem_cons_self)
        (.punctuator ';' :: statements.flatMap Statement.tokens)
      have hrest := ih fun t ht => h t (List.mem_cons_of_mem s ht)
      have hsplit : (s :: statements).flatMap Statement.tokens =
          s.clauseTokens ++ .punctuator ';' :: statements.flatMap Statement.tokens := by
        rw [List.flatMap_cons, Statement.tokens, List.append_assoc, List.singleton_append]
      have hshorter : (statements.flatMap Statement.tokens).length <
          (s.clauseTokens ++ .punctuator ';' :: statements.flatMap Statement.tokens).length := by
        simp only [List.length_append, List.length_cons]
        omega
      rw [hsplit, statements?, if_neg (by simp), hclause]
      simp only [hshorter, dif_pos, hrest, Option.map_some]

end Reader

/-- A module with legal names is read back from its text. -/
theorem read?_text {m : EsModule} (h : ∀ s ∈ m.statements, s.Legal) : read? m.text = some m := by
  have htokens := lex_text h
  have hstatements := Reader.statements?_tokens h
  simp only [read?, htokens, hstatements, bind, Option.bind, pure]

end EsModule

end SchemaCompiler
