import SchemaCompiler.Json.Reader
import SchemaCompiler.Proofs.Json.Number

/-! # What can be read at all

Not every value is one that a text stands for: an object may repeat a key, and values may nest too deep.
The reader gives none of these. Which doubles it gives depends on the way in which these are read. -/

namespace SchemaCompiler

namespace Json

/-- A value of at most so many levels that a text can stand for, with a condition on all of its doubles. -/
inductive Storable (P : Binary64 → Prop) : Nat → Json → Prop where
  | null {depth : Nat} : Storable P depth .null
  | bool {depth : Nat} {b : Bool} : Storable P depth (.bool b)
  | number {depth : Nat} {n : Number} (h : n.RealIs P) : Storable P depth (.number n)
  | string {depth : Nat} {s : String} : Storable P depth (.string s)
  | array {depth : Nat} {items : List Json} (h : ∀ v ∈ items, Storable P depth v) :
      Storable P (depth + 1) (.array items)
  | object {depth : Nat} {members : List (String × Json)} (hkeys : (members.map Prod.fst).Nodup)
      (h : ∀ member ∈ members, Storable P depth member.2) : Storable P (depth + 1) (.object members)

theorem Storable.mono {P : Binary64 → Prop} {depth depth' : Nat} {v : Json} (h : v.Storable P depth)
    (hle : depth ≤ depth') : v.Storable P depth' := by
  induction h generalizing depth' with
  | null => exact .null
  | bool => exact .bool
  | number h => exact .number h
  | string => exact .string
  | array _ ih =>
      obtain ⟨depth', rfl⟩ := Nat.exists_eq_add_of_lt (Nat.lt_of_lt_of_le (Nat.lt_succ_self _) hle)
      exact .array fun v hv => ih v hv (by omega)
  | object hkeys _ ih =>
      obtain ⟨depth', rfl⟩ := Nat.exists_eq_add_of_lt (Nat.lt_of_lt_of_le (Nat.lt_succ_self _) hle)
      exact .object hkeys fun member hm => ih member hm (by omega)

/-! ## Doubles -/

mutual

/-- The doubles of a value, in their order. -/
def reals : Json → List Binary64
  | .number (.real x) => [x]
  | .array items => realsOfItems items
  | .object members => realsOfMembers members
  | _ => []

def realsOfItems : List Json → List Binary64
  | [] => []
  | v :: rest => reals v ++ realsOfItems rest

def realsOfMembers : List (String × Json) → List Binary64
  | [] => []
  | (_, v) :: rest => reals v ++ realsOfMembers rest

end

theorem realsOfItems_eq (items : List Json) : realsOfItems items = items.flatMap reals := by
  induction items with
  | nil => rfl
  | cons v items ih => rw [realsOfItems, ih, List.flatMap_cons]

theorem realsOfMembers_eq (members : List (String × Json)) :
    realsOfMembers members = members.flatMap fun member => reals member.2 := by
  induction members with
  | nil => rfl
  | cons member members ih => rw [realsOfMembers, ih, List.flatMap_cons]

/-- A condition on each double of a value holds wherever the value holds one. -/
theorem Storable.of_reals {P : Binary64 → Prop} {depth : Nat} {v : Json}
    (h : v.Storable (fun _ => True) depth) (hreals : ∀ x ∈ v.reals, P x) : v.Storable P depth := by
  induction h with
  | null => exact .null
  | bool => exact .bool
  | @number _ n _ =>
      cases n with
      | unsigned | negative => exact .number trivial
      | real x => exact .number (hreals x (List.mem_singleton_self x))
  | string => exact .string
  | array _ ih =>
      rw [reals, realsOfItems_eq, List.forall_mem_flatMap] at hreals
      exact .array fun v hv => ih v hv (hreals v hv)
  | object hkeys _ ih =>
      rw [reals, realsOfMembers_eq, List.forall_mem_flatMap] at hreals
      exact .object hkeys fun member hm => ih member hm (hreals member hm)

/-! ## Members -/

theorem keys_setMember (key : String) (value : Json) (members : List (String × Json)) :
    (setMember key value members).map Prod.fst =
      if key ∈ members.map Prod.fst then members.map Prod.fst else members.map Prod.fst ++ [key] := by
  induction members with
  | nil => rfl
  | cons member members ih =>
      obtain ⟨k, v⟩ := member
      rw [setMember]
      by_cases hkey : k = key
      · simp [hkey]
      · rw [if_neg hkey, List.map_cons, ih]
        by_cases hmem : key ∈ members.map Prod.fst
        · simp [hmem]
        · simp [hmem, Ne.symm hkey]

theorem mem_setMember {key : String} {value : Json} {members : List (String × Json)}
    {member : String × Json} (h : member ∈ setMember key value members) :
    member.2 = value ∨ member ∈ members := by
  induction members with
  | nil => exact .inl (congrArg Prod.snd (List.mem_singleton.mp h))
  | cons first members ih =>
      obtain ⟨k, v⟩ := first
      rw [setMember] at h
      split at h
      · rcases List.mem_cons.mp h with rfl | h
        · exact .inl rfl
        · exact .inr (List.mem_cons_of_mem _ h)
      · rcases List.mem_cons.mp h with rfl | h
        · exact .inr (List.mem_cons_self ..)
        · exact (ih h).imp_right (List.mem_cons_of_mem _)

theorem nodup_keys_setMember {key : String} {value : Json} {members : List (String × Json)}
    (h : (members.map Prod.fst).Nodup) : ((setMember key value members).map Prod.fst).Nodup := by
  rw [keys_setMember]
  by_cases hmem : key ∈ members.map Prod.fst
  · rw [if_pos hmem]
    exact h
  · rw [if_neg hmem]
    exact h.append (List.nodup_singleton key) (List.disjoint_singleton.mpr hmem)

/-- Collected members repeat no key. -/
theorem nodup_keys_collectMembers (members : List (String × Json)) :
    ((collectMembers members).map Prod.fst).Nodup :=
  List.foldlRecOn (motive := fun kept : List (String × Json) => (kept.map Prod.fst).Nodup) members _
    List.nodup_nil fun _ hkept _ _ => nodup_keys_setMember hkept

/-- The values of collected members are among those collected. -/
theorem forall_collectMembers {P : Json → Prop} {members : List (String × Json)}
    (h : ∀ member ∈ members, P member.2) : ∀ member ∈ collectMembers members, P member.2 := by
  refine List.foldlRecOn (motive := fun kept : List (String × Json) => ∀ member ∈ kept, P member.2)
    members _ (by simp) ?_
  intro kept hkept given hgiven member hmember
  rcases mem_setMember hmember with hvalue | hmember
  · rw [hvalue]
    exact h given hgiven
  · exact hkept member hmember

/-- A new key is put last. -/
theorem setMember_of_notMem {key : String} {value : Json} {kept : List (String × Json)}
    (hnew : key ∉ kept.map Prod.fst) : setMember key value kept = kept ++ [(key, value)] := by
  induction kept with
  | nil => rfl
  | cons first kept ih =>
      obtain ⟨k, v⟩ := first
      rw [List.map_cons, List.mem_cons, not_or] at hnew
      rw [setMember, if_neg (Ne.symm hnew.1), ih hnew.2]
      rfl

theorem foldl_setMember_of_nodup {kept members : List (String × Json)}
    (h : ((kept ++ members).map Prod.fst).Nodup) :
    members.foldl (fun kept member => setMember member.1 member.2 kept) kept = kept ++ members := by
  induction members generalizing kept with
  | nil => exact (List.append_nil kept).symm
  | cons first members ih =>
      have hnew : first.1 ∉ kept.map Prod.fst := by
        rw [List.map_append, List.map_cons, List.nodup_middle, List.nodup_cons] at h
        exact fun hmem => h.1 (List.mem_append_left _ hmem)
      have happend : kept ++ first :: members = kept ++ [first] ++ members := by simp
      rw [happend] at h ⊢
      rw [List.foldl_cons, setMember_of_notMem hnew]
      exact ih h

/-- Members that repeat no key are collected as they are. -/
theorem collectMembers_of_nodup {members : List (String × Json)}
    (h : (members.map Prod.fst).Nodup) : collectMembers members = members :=
  @foldl_setMember_of_nodup [] members h

/-! ## What the reader gives -/

section Reading

variable {α : Type} {P : α → Prop}

theorem of_afterBlanks {s : List Char} {r : Option (α × Rest (skipBlanks s))} {a : α} {rest : Rest s}
    (hP : ∀ a rest, r = some (a, rest) → P a) (h : afterBlanks s r = some (a, rest)) : P a := by
  obtain ⟨⟨b, rest'⟩, hr, heq⟩ := Option.map_eq_some_iff.mp h
  cases heq
  exact hP _ _ hr

theorem forall_of_sequence? {close : Char} {item? : (s : List Char) → Option (α × Rest s)}
    (hitem : ∀ s a rest, item? s = some (a, rest) → P a) {s : List Char} {as : List α} {rest : Rest s}
    (h : sequence? close item? s = some (as, rest)) : ∀ a ∈ as, P a := by
  induction hlength : s.length using Nat.strongRecOn generalizing s as with
  | _ length ih =>
      rw [sequence?] at h
      split at h
      · cases h
      · next a r hr ha =>
          have hfirst := hitem _ _ _ ha
          split at h
          · cases h
          · next c t hb =>
              split at h
              · split at h
                · cases h
                · next as' rest' hrest' hmore =>
                    cases h
                    have hless : t.length < length := by
                      have := length_skipBlanks_le r
                      simp only [hb, List.length_cons] at this
                      omega
                    exact List.forall_mem_cons.mpr ⟨hfirst, ih _ hless hmore rfl⟩
              · split at h
                · cases h
                  exact List.forall_mem_singleton.mpr hfirst
                · cases h

theorem forall_of_enclosed? {close : Char} {item? : (s : List Char) → Option (α × Rest s)}
    (hitem : ∀ s a rest, item? s = some (a, rest) → P a) {s : List Char} {as : List α} {rest : Rest s}
    (h : enclosed? close item? s = some (as, rest)) : ∀ a ∈ as, P a := by
  unfold enclosed? at h
  split at h
  · cases h
  · split at h
    · cases h
      simp
    · exact forall_of_sequence? hitem h

end Reading

theorem of_member? {P : Json → Prop} {value? : (s : List Char) → Option (Json × Rest s)}
    (hvalue : ∀ s v rest, value? s = some (v, rest) → P v) {s : List Char} {member : String × Json}
    {rest : Rest s} (h : member? value? s = some (member, rest)) : P member.2 := by
  unfold member? at h
  split at h
  · split at h
    · cases h
    · split at h
      · split at h
        · cases h
        · next hv =>
            cases h
            exact hvalue _ _ _ hv
      · cases h
  · cases h

theorem exists_of_afterChar {α : Type} {c : Char} {s : List Char} {r : Option (α × Rest s)} {a : α}
    {rest : Rest (c :: s)} (h : afterChar c s r = some (a, rest)) : ∃ rest', r = some (a, rest') := by
  obtain ⟨⟨b, rest'⟩, hr, heq⟩ := Option.map_eq_some_iff.mp h
  cases heq
  exact ⟨rest', hr⟩

variable [RealReader]

theorem storable_of_scalar? {s : List Char} {v : Json} {rest : Rest s} (h : scalar? s = some (v, rest))
    (depth : Nat) : v.Storable (fun _ => True) depth := by
  unfold scalar? at h
  split at h
  · cases h
    exact .null
  · cases h
    exact .bool
  · cases h
    exact .bool
  · split at h
    · cases h
    · cases h
      exact .string
  · split at h
    · cases h
    · next n _ _ =>
        cases h
        cases n <;> exact .number trivial

theorem storable_of_container? {depth : Nat} {value? : (s : List Char) → Option (Json × Rest s)}
    (hvalue : ∀ s v rest, value? s = some (v, rest) → v.Storable (fun _ => True) depth) {s : List Char} {v : Json}
    {rest : Rest s} (h : container? value? s = some (v, rest)) : v.Storable (fun _ => True) (depth + 1) := by
  unfold container? at h
  split at h
  · obtain ⟨_, hitems⟩ := exists_of_afterChar h
    obtain ⟨⟨vs, _⟩, hvs, heq⟩ := Option.map_eq_some_iff.mp hitems
    cases heq
    exact .array (forall_of_enclosed? hvalue hvs)
  · obtain ⟨_, hmembers⟩ := exists_of_afterChar h
    obtain ⟨⟨ms, _⟩, hms, heq⟩ := Option.map_eq_some_iff.mp hmembers
    cases heq
    have hgiven : ∀ member ∈ ms, member.2.Storable (fun _ => True) depth :=
      forall_of_enclosed? (fun _ _ _ => of_member? hvalue) hms
    exact .object (nodup_keys_collectMembers ms) (forall_collectMembers hgiven)
  · exact storable_of_scalar? h _

/-- What is read within a depth is a value of that depth. -/
theorem storable_of_value? {depth : Nat} {s : List Char} {v : Json} {rest : Rest s}
    (h : value? depth s = some (v, rest)) : v.Storable (fun _ => True) depth := by
  induction depth generalizing s v with
  | zero => exact of_afterBlanks (fun _ _ hscalar => storable_of_scalar? hscalar 0) h
  | succ depth ih =>
      exact of_afterBlanks (fun _ _ hcontainer => storable_of_container? (fun _ _ _ => ih) hcontainer) h

theorem storable_of_parse? {text : String} {v : Json} (h : parse? text = some v) :
    v.Storable (fun _ => True) maxDepth := by
  unfold parse? at h
  split at h
  · cases h
  · next hv =>
      split at h
      · cases h
        exact storable_of_value? hv
      · cases h

end Json

end SchemaCompiler
