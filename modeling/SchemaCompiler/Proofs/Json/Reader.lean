import SchemaCompiler.Json.Printer
import SchemaCompiler.Proofs.Json.Quoted
import SchemaCompiler.Proofs.Json.Storable

/-! # Values are read back

A value that a text can stand for is written and read again, in every layout that puts nothing but blanks
between tokens. The statement about a part says what stands behind it, so that the parts compose: only
numbers mind what that is. -/

namespace SchemaCompiler

namespace Json

/-! ## Taking values off a text -/

/-- A reader takes a value off the front of a text and leaves the rest. -/
def Takes {α : Type} (read : (s : List Char) → Option (α × Rest s)) (s : List Char) (a : α)
    (rest : List Char) : Prop :=
  ∃ h, read s = some (a, ⟨rest, h⟩)

/-- Nothing but what may stand between tokens. -/
def Blank (s : List Char) : Prop :=
  ∀ c ∈ s, isBlank c

/-- What stands behind the blanks is not the end of a list. -/
def Starts (close : Char) (s : List Char) : Prop :=
  ∃ c t, skipBlanks s = c :: t ∧ c ≠ close

theorem skipBlanks_cons {c : Char} (h : isBlank c = false) (s : List Char) :
    skipBlanks (c :: s) = c :: s := by
  simp [skipBlanks, h]

theorem skipBlanks_append {blanks : List Char} (h : Blank blanks) (s : List Char) :
    skipBlanks (blanks ++ s) = skipBlanks s :=
  List.dropWhile_append_of_pos h

theorem Starts.after {close : Char} {blanks s : List Char} (h : Starts close s) (hblanks : Blank blanks) :
    Starts close (blanks ++ s) := by
  rw [Starts, skipBlanks_append hblanks]
  exact h

theorem starts_cons {close c : Char} (h : isBlank c = false) (hclose : c ≠ close) (s : List Char) :
    Starts close (c :: s) :=
  ⟨c, s, skipBlanks_cons h s, hclose⟩

section Lists

variable {α : Type} {close : Char} {item? : (s : List Char) → Option (α × Rest s)} {a : α}
  {as : List α} {blanks s t rest : List Char}

theorem takes_afterBlanks (hs : skipBlanks s = t) :
    Takes (fun s => afterBlanks s (item? (skipBlanks s))) s a rest ↔ Takes item? t a rest := by
  subst hs
  constructor
  · rintro ⟨_, hread⟩
    obtain ⟨⟨b, rest', hless⟩, hitem, heq⟩ := Option.map_eq_some_iff.mp hread
    cases heq
    exact ⟨hless, hitem⟩
  · rintro ⟨hrest, hread⟩
    exact ⟨Nat.lt_of_lt_of_le hrest (length_skipBlanks_le s), by simp [afterBlanks, hread]⟩

theorem takes_sequence?_last (hcomma : close ≠ ',') (h : Takes item? s a t)
    (hskip : skipBlanks t = close :: rest) : Takes (sequence? close item?) s [a] rest := by
  obtain ⟨hrest, hread⟩ := h
  have hless : rest.length < t.length := by
    have := length_skipBlanks_le t
    rw [hskip] at this
    exact this
  refine ⟨Nat.lt_trans hless hrest, ?_⟩
  rw [sequence?, hread]
  simp only
  split
  · next hb =>
      rw [hskip] at hb
      cases hb
  · next c t hb =>
      rw [hskip] at hb
      cases hb
      rw [if_neg hcomma, if_pos rfl]

theorem takes_sequence?_cons (h : Takes item? s a (',' :: t))
    (hmore : Takes (sequence? close item?) t as rest) :
    Takes (sequence? close item?) s (a :: as) rest := by
  obtain ⟨hrest, hread⟩ := h
  obtain ⟨hrest', hread'⟩ := hmore
  have hskip := skipBlanks_cons (c := ',') (by decide) t
  refine ⟨Nat.lt_trans hrest' (Nat.lt_of_succ_lt hrest), ?_⟩
  rw [sequence?, hread]
  simp only
  split
  · next hb =>
      rw [hskip] at hb
      cases hb
  · next c t hb =>
      rw [hskip] at hb
      cases hb
      rw [if_pos rfl, hread']

theorem takes_enclosed?_nil (hblank : isBlank close = false) :
    Takes (enclosed? close item?) (close :: rest) [] rest := by
  have hskip := skipBlanks_cons hblank rest
  refine ⟨Nat.lt_succ_self _, ?_⟩
  unfold enclosed?
  split
  · next hb =>
      rw [hskip] at hb
      cases hb
  · next c t hb =>
      rw [hskip] at hb
      cases hb
      rw [if_pos rfl]

theorem takes_enclosed?_of_sequence? (hs : Starts close s)
    (h : Takes (sequence? close item?) s as rest) : Takes (enclosed? close item?) s as rest := by
  obtain ⟨hrest, hread⟩ := h
  obtain ⟨c, t, hskip, hclose⟩ := hs
  refine ⟨hrest, ?_⟩
  unfold enclosed?
  split
  · next hb =>
      rw [hskip] at hb
      cases hb
  · next c' t' hb =>
      rw [hskip] at hb
      cases hb
      rw [if_neg hclose, hread]

/-- The items behind the first one with commas in front of them, and what closes the list. -/
def furtherChars (closing : List Char) (print : α → List Char) : List α → List Char
  | [] => closing
  | a :: as => ',' :: (print a ++ furtherChars closing print as)

theorem endsNumber_cons {c : Char} (h : c.isDigit = false ∧ c ≠ '.' ∧ c ≠ 'e' ∧ c ≠ 'E')
    (s : List Char) : EndsNumber (c :: s) := by
  rintro _ ⟨⟩
  exact h

theorem endsNumber_append (hblanks : Blank blanks) (h : EndsNumber s) : EndsNumber (blanks ++ s) := by
  cases blanks with
  | nil => exact h
  | cons c blanks =>
      have hc : isBlank c := hblanks c (List.mem_cons_self ..)
      simp only [isBlank, Bool.or_eq_true, decide_eq_true_eq] at hc
      obtain ((rfl | rfl) | rfl) | rfl := hc <;> exact endsNumber_cons (by decide) _

theorem takes_sequence? {print : α → List Char} (hblanks : Blank blanks) (hblank : isBlank close = false)
    (hcomma : close ≠ ',') (hclose : EndsNumber (close :: rest))
    (hitem : ∀ b ∈ a :: as, ∀ rest, EndsNumber rest → Takes item? (print b ++ rest) b rest) :
    Takes (sequence? close item?) (print a ++ (furtherChars (blanks ++ [close]) print as ++ rest))
      (a :: as) rest := by
  induction as generalizing a with
  | nil =>
      have hskip : skipBlanks (blanks ++ close :: rest) = close :: rest :=
        (skipBlanks_append hblanks _).trans (skipBlanks_cons hblank rest)
      rw [furtherChars, List.append_assoc, List.singleton_append]
      exact takes_sequence?_last hcomma
        (hitem a (List.mem_cons_self ..) _ (endsNumber_append hblanks hclose)) hskip
  | cons b as ih =>
      rw [List.forall_mem_cons] at hitem
      have hfirst := hitem.1 (',' :: (print b ++ (furtherChars (blanks ++ [close]) print as ++ rest)))
        (endsNumber_cons (by decide) _)
      have hmore := ih hitem.2
      rw [furtherChars, List.cons_append, List.append_assoc]
      exact takes_sequence?_cons hfirst hmore

/-- A list between its brackets is read item by item. -/
theorem takes_enclosed? {print : α → List Char} (hblanks : Blank blanks) (hblank : isBlank close = false)
    (hcomma : close ≠ ',') (hclose : EndsNumber (close :: rest)) (hstarts : ∀ s, Starts close (print a ++ s))
    (hitem : ∀ b ∈ a :: as, ∀ rest, EndsNumber rest → Takes item? (print b ++ rest) b rest) :
    Takes (enclosed? close item?) (print a ++ (furtherChars (blanks ++ [close]) print as ++ rest))
      (a :: as) rest :=
  takes_enclosed?_of_sequence? (hstarts _) (takes_sequence? hblanks hblank hcomma hclose hitem)

end Lists

theorem takes_member? {value? : (s : List Char) → Option (Json × Rest s)} {v : Json}
    {blanks t rest : List Char} (hblanks : Blank blanks) (key : String) (h : Takes value? t v rest) :
    Takes (member? value?) (blanks ++ (quotedChars key ++ ':' :: t)) (key, v) rest := by
  obtain ⟨hrest, hread⟩ := h
  have hquoted : quotedChars key ++ ':' :: t =
      '"' :: (key.toList.flatMap escapeChar ++ '"' :: ':' :: t) := by
    simp [quotedChars]
  have hkey := scanQuoted?_quotedChars key (':' :: t)
  rw [hquoted]
  generalize key.toList.flatMap escapeChar ++ '"' :: ':' :: t = s at hkey
  have hskip : skipBlanks (blanks ++ '"' :: s) = '"' :: s :=
    (skipBlanks_append hblanks _).trans (skipBlanks_cons (by decide) s)
  have hcolon : skipBlanks (':' :: t) = ':' :: t := skipBlanks_cons (by decide) t
  have hless := length_lt_of_scanQuoted? hkey
  refine ⟨by simp only [List.length_cons, List.length_append] at hless ⊢; omega, ?_⟩
  unfold member?
  split
  · next hb =>
      rw [hskip] at hb
      cases hb
      split
      · next hq =>
          rw [hkey] at hq
          cases hq
      · next hq =>
          rw [hkey] at hq
          cases hq
          split
          · next hc =>
              rw [hcolon] at hc
              cases hc
              rw [hread]
          · next hc => exact absurd hcolon (hc t)
  · next hb => exact absurd hskip (hb s)

/-! ## Scalars -/

/-- A character that starts neither a blank nor a list. -/
def StartsScalar (c : Char) : Prop :=
  isBlank c = false ∧ c ≠ '[' ∧ c ≠ '{'

instance (c : Char) : Decidable (StartsScalar c) :=
  inferInstanceAs (Decidable (_ ∧ _))

/-- The first character of a number. -/
def IsNumeric (c : Char) : Prop :=
  c = '-' ∨ c.isDigit

instance (c : Char) : Decidable (IsNumeric c) :=
  inferInstanceAs (Decidable (_ ∨ _))

theorem IsNumeric.ne {c d : Char} (h : IsNumeric c) (hd : ¬IsNumeric d) : c ≠ d :=
  fun heq => hd (heq ▸ h)

theorem IsNumeric.startsScalar {c : Char} (h : IsNumeric c) : StartsScalar c := by
  have hspace : c ≠ ' ' := h.ne (by decide)
  have htab : c ≠ '\t' := h.ne (by decide)
  have hline : c ≠ '\n' := h.ne (by decide)
  have hreturn : c ≠ '\r' := h.ne (by decide)
  exact ⟨by simp [isBlank, hspace, htab, hline, hreturn], h.ne (by decide), h.ne (by decide)⟩

theorem exists_chars_number (n : Number) : ∃ c t, n.chars = c :: t ∧ IsNumeric c := by
  obtain ⟨l, hl, hchars⟩ := exists_literal_number n
  rw [← hchars, Literal.chars]
  cases l.negative with
  | true => exact ⟨'-', l.body, rfl, .inl rfl⟩
  | false =>
      rw [if_neg Bool.false_ne_true, Literal.body]
      cases hwhole : l.whole with
      | nil => exact absurd hwhole hl.whole.nonempty
      | cons c digits => exact ⟨c, _, rfl, .inr (hl.whole.digits c (by simp [hwhole]))⟩

section Scalars

variable [RealReader] {s rest : List Char}

/-- A value is taken from behind the blanks in front of it. -/
theorem takes_value?_append {depth : Nat} {blanks : List Char} {v : Json} (hblanks : Blank blanks)
    (h : Takes (value? depth) s v rest) : Takes (value? depth) (blanks ++ s) v rest := by
  have hskip := skipBlanks_append hblanks s
  cases depth with
  | zero | succ => exact (takes_afterBlanks hskip).mpr ((takes_afterBlanks rfl).mp h)

theorem container?_of_head {value? : (s : List Char) → Option (Json × Rest s)}
    (hbracket : s.head? ≠ some '[') (hbrace : s.head? ≠ some '{') : container? value? s = scalar? s := by
  unfold container?
  split
  · exact absurd rfl hbracket
  · exact absurd rfl hbrace
  · rfl

/-- A value that is no list is taken within every depth. -/
theorem takes_value?_of_scalar? {v : Json} {c : Char} (hc : StartsScalar c)
    (h : Takes scalar? (c :: s) v rest) (depth : Nat) : Takes (value? depth) (c :: s) v rest := by
  obtain ⟨hblank, hbracket, hbrace⟩ := hc
  have hskip := skipBlanks_cons hblank s
  cases depth with
  | zero => exact (takes_afterBlanks hskip).mpr h
  | succ depth =>
      obtain ⟨hrest, hread⟩ := h
      have hcontainer : container? (value? depth) (c :: s) = scalar? (c :: s) :=
        container?_of_head (by simpa using hbracket) (by simpa using hbrace)
      exact (takes_afterBlanks hskip).mpr ⟨hrest, hcontainer.trans hread⟩

theorem takes_scalar?_string (t : String) : Takes scalar? (quotedChars t ++ rest) (.string t) rest := by
  have hquoted : quotedChars t ++ rest = '"' :: (t.toList.flatMap escapeChar ++ '"' :: rest) := by
    simp [quotedChars]
  have hscan := scanQuoted?_quotedChars t rest
  rw [hquoted]
  generalize t.toList.flatMap escapeChar ++ '"' :: rest = s at hscan
  refine ⟨Nat.lt_succ_of_lt (length_lt_of_scanQuoted? hscan), ?_⟩
  simp only [scalar?]
  split
  · next hnone =>
      rw [hscan] at hnone
      cases hnone
  · next hsome =>
      rw [hscan] at hsome
      cases hsome
      rfl

theorem takes_scalar?_number {n : Number} (hs : ∀ c, s.head? = some c → IsNumeric c)
    (h : scanNumber? s = some (n, rest)) : Takes scalar? s (.number n) rest := by
  refine ⟨length_lt_of_scanNumber? h, ?_⟩
  have hnot : ∀ c, s.head? = some c → c ≠ 'n' ∧ c ≠ 't' ∧ c ≠ 'f' ∧ c ≠ '"' := by
    intro c hc
    have hnumeric := hs c hc
    exact ⟨hnumeric.ne (by decide), hnumeric.ne (by decide), hnumeric.ne (by decide),
      hnumeric.ne (by decide)⟩
  unfold scalar?
  split
  · exact absurd rfl (hnot _ rfl).1
  · exact absurd rfl (hnot _ rfl).2.1
  · exact absurd rfl (hnot _ rfl).2.2.1
  · exact absurd rfl (hnot _ rfl).2.2.2
  · split
    · next hnone =>
        rw [h] at hnone
        cases hnone
    · next hsome =>
        rw [h] at hsome
        cases hsome
        rfl

end Scalars

/-! ## Layouts -/

/-- A layout that puts nothing but blanks between tokens. -/
structure Layout.IsBlank (layout : Layout) : Prop where
  lineBreak : ∀ level, Blank (layout.lineBreak level)
  gap : Blank layout.gap

theorem Layout.isBlank_tight : Layout.tight.IsBlank where
  lineBreak _ := List.forall_mem_nil _
  gap := List.forall_mem_nil _

theorem Layout.isBlank_indented : Layout.indented.IsBlank where
  lineBreak level := List.forall_mem_cons.mpr
    ⟨by decide, fun _ hc => (List.eq_of_mem_replicate hc).symm ▸ by decide⟩
  gap := List.forall_mem_singleton.mpr (by decide)

section Values

variable {layout : Layout}

/-- An item of an array, on its own line. -/
def itemChars (layout : Layout) (level : Nat) (v : Json) : List Char :=
  layout.lineBreak (level + 1) ++ chars layout (level + 1) v

/-- A member of an object, on its own line. -/
def memberChars (layout : Layout) (level : Nat) (member : String × Json) : List Char :=
  layout.lineBreak (level + 1) ++
    (quotedChars member.1 ++ ':' :: (layout.gap ++ chars layout (level + 1) member.2))

theorem itemsChars_eq (level : Nat) (items : List Json) : itemsChars layout level items =
    furtherChars (layout.lineBreak level ++ [']']) (itemChars layout level) items := by
  induction items with
  | nil => rfl
  | cons v items ih =>
      rw [itemsChars, furtherChars, ih]
      rfl

theorem membersChars_eq (level : Nat) (members : List (String × Json)) : membersChars layout level members =
    furtherChars (layout.lineBreak level ++ ['}']) (memberChars layout level) members := by
  induction members with
  | nil => rfl
  | cons member members ih =>
      rw [membersChars, furtherChars, ih]
      simp [memberChars]

theorem chars_array (level : Nat) (v : Json) (items : List Json) :
    chars layout level (.array (v :: items)) = '[' :: (itemChars layout level v ++
      furtherChars (layout.lineBreak level ++ [']']) (itemChars layout level) items) := by
  rw [chars, itemsChars_eq]
  rfl

theorem chars_object (level : Nat) (member : String × Json) (members : List (String × Json)) :
    chars layout level (.object (member :: members)) = '{' :: (memberChars layout level member ++
      furtherChars (layout.lineBreak level ++ ['}']) (memberChars layout level) members) := by
  rw [chars, membersChars_eq]
  simp [memberChars]

/-- No value starts like the end of an array. -/
theorem starts_chars (level : Nat) (v : Json) (s : List Char) :
    Starts ']' (chars layout level v ++ s) := by
  cases v with
  | null => exact starts_cons (by decide) (by decide) _
  | bool b => cases b <;> exact starts_cons (by decide) (by decide) _
  | number n =>
      obtain ⟨c, t, hchars, hc⟩ := exists_chars_number n
      rw [chars, hchars]
      exact starts_cons hc.startsScalar.1 (hc.ne (by decide)) _
  | string => exact starts_cons (by decide) (by decide) _
  | array items => cases items <;> exact starts_cons (by decide) (by decide) _
  | object members =>
      cases members with
      | nil => exact starts_cons (by decide) (by decide) _
      | cons member members =>
          rw [chars_object]
          exact starts_cons (by decide) (by decide) _

theorem starts_itemChars (hlayout : layout.IsBlank) (level : Nat) (v : Json) (s : List Char) :
    Starts ']' (itemChars layout level v ++ s) := by
  rw [itemChars, List.append_assoc]
  exact (starts_chars _ v s).after (hlayout.lineBreak _)

theorem starts_memberChars (hlayout : layout.IsBlank) (level : Nat) (member : String × Json)
    (s : List Char) : Starts '}' (memberChars layout level member ++ s) := by
  rw [memberChars, List.append_assoc]
  exact (starts_cons (by decide) (by decide) _).after (hlayout.lineBreak _)

end Values

/-! ## Values -/

variable [RealReader] {depth : Nat} {s rest : List Char}

/-- A list behind its bracket is taken one level deeper. -/
theorem takes_value?_array {items : List Json} (h : Takes (enclosed? ']' (value? depth)) s items rest) :
    Takes (value? (depth + 1)) ('[' :: s) (.array items) rest := by
  obtain ⟨hrest, hread⟩ := h
  have hcontainer : Takes (container? (value? depth)) ('[' :: s) (.array items) rest :=
    ⟨Nat.lt_succ_of_lt hrest, by simp [container?, hread, afterChar]⟩
  exact (takes_afterBlanks (skipBlanks_cons (by decide) s)).mpr hcontainer

theorem takes_value?_object {members : List (String × Json)} (hkeys : (members.map Prod.fst).Nodup)
    (h : Takes (enclosed? '}' (member? (value? depth))) s members rest) :
    Takes (value? (depth + 1)) ('{' :: s) (.object members) rest := by
  obtain ⟨hrest, hread⟩ := h
  have hcontainer : Takes (container? (value? depth)) ('{' :: s) (.object members) rest :=
    ⟨Nat.lt_succ_of_lt hrest, by simp [container?, hread, afterChar, collectMembers_of_nodup hkeys]⟩
  exact (takes_afterBlanks (skipBlanks_cons (by decide) s)).mpr hcontainer

/-- A value is taken off its own text. -/
theorem takes_value? {layout : Layout} (hlayout : layout.IsBlank) {v : Json} (h : v.Storable IsRestored depth)
    (level : Nat) (hrest : EndsNumber rest) :
    Takes (value? depth) (chars layout level v ++ rest) v rest := by
  induction h generalizing level rest with
  | @null depth =>
      have hscalar : Takes scalar? ('n' :: 'u' :: 'l' :: 'l' :: rest) .null rest :=
        ⟨by simp only [List.length_cons]; omega, rfl⟩
      exact takes_value?_of_scalar? (by decide) hscalar depth
  | @bool depth b =>
      cases b with
      | true =>
          have hscalar : Takes scalar? ('t' :: 'r' :: 'u' :: 'e' :: rest) (.bool true) rest :=
            ⟨by simp only [List.length_cons]; omega, rfl⟩
          exact takes_value?_of_scalar? (by decide) hscalar depth
      | false =>
          have hscalar : Takes scalar? ('f' :: 'a' :: 'l' :: 's' :: 'e' :: rest) (.bool false) rest :=
            ⟨by simp only [List.length_cons]; omega, rfl⟩
          exact takes_value?_of_scalar? (by decide) hscalar depth
  | @number depth n h =>
      obtain ⟨c, t, hchars, hc⟩ := exists_chars_number _
      have hscan := scanNumber?_chars h hrest
      rw [chars]
      rw [hchars, List.cons_append] at hscan ⊢
      refine takes_value?_of_scalar? hc.startsScalar (takes_scalar?_number ?_ hscan) depth
      rintro _ ⟨⟩
      exact hc
  | @string depth t => exact takes_value?_of_scalar? (by decide) (takes_scalar?_string t) depth
  | @array depth items h ih =>
      cases items with
      | nil => exact takes_value?_array (takes_enclosed?_nil (by decide))
      | cons v items =>
          rw [chars_array, List.cons_append, List.append_assoc]
          refine takes_value?_array (takes_enclosed? (hlayout.lineBreak level) (by decide) (by decide)
            (endsNumber_cons (by decide) _) (starts_itemChars hlayout level v) ?_)
          intro w hw rest hrest
          rw [itemChars, List.append_assoc]
          exact takes_value?_append (hlayout.lineBreak _) (ih w hw _ hrest)
  | @object depth members hkeys h ih =>
      cases members with
      | nil => exact takes_value?_object List.nodup_nil (takes_enclosed?_nil (by decide))
      | cons member members =>
          rw [chars_object, List.cons_append, List.append_assoc]
          refine takes_value?_object hkeys (takes_enclosed? (hlayout.lineBreak level) (by decide)
            (by decide) (endsNumber_cons (by decide) _) (starts_memberChars hlayout level member) ?_)
          intro other hother rest hrest
          have hvalue := takes_value?_append hlayout.gap (ih other hother (level + 1) hrest)
          simp only [memberChars, List.append_assoc, List.cons_append]
          exact takes_member? (hlayout.lineBreak _) other.1 hvalue

/-- A value that a text can stand for is read back from its text, whatever the layout. -/
theorem parse?_chars {layout : Layout} (hlayout : layout.IsBlank) {v : Json} (h : v.Storable IsRestored maxDepth) :
    parse? (String.ofList (v.chars layout 0)) = some v := by
  have hnothing : EndsNumber [] := by
    rintro _ ⟨⟩
  have htakes : Takes (value? maxDepth) (String.ofList (v.chars layout 0)).toList v [] := by
    rw [String.toList_ofList, ← List.append_nil (chars layout 0 v)]
    exact takes_value? hlayout h 0 hnothing
  obtain ⟨hless, hread⟩ := htakes
  rw [parse?, hread]
  rfl

theorem parse?_compact {v : Json} (h : v.Storable IsRestored maxDepth) : parse? v.compact = some v :=
  parse?_chars Layout.isBlank_tight h

theorem parse?_pretty {v : Json} (h : v.Storable IsRestored maxDepth) : parse? v.pretty = some v :=
  parse?_chars Layout.isBlank_indented h

end Json

end SchemaCompiler
