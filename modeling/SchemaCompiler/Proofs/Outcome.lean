import SchemaCompiler.Schema.Compilation
import Mathlib.Data.List.Forall2

/-! Inversion of checks: what a check that succeeds says about the checks it was built from. -/

namespace SchemaCompiler

variable {ε α β : Type}

/-! ## Chains of checks -/

theorem bind_eq_ok {x : Except ε α} {f : α → Except ε β} {b : β} :
    (x >>= f) = .ok b ↔ ∃ a, x = .ok a ∧ f a = .ok b := by
  cases x <;> simp [bind, Except.bind]

@[simp] theorem pure_eq_ok {a b : α} : (pure a : Except ε α) = .ok b ↔ a = b := by
  simp [pure, Except.pure]

@[simp] theorem throw_eq_ok {e : ε} {a : α} : (throw e : Except ε α) = .ok a ↔ False := by
  simp [throw, throwThe, MonadExceptOf.throw]

/-- A guard lets exactly the inputs pass that it does not refuse. -/
theorem guard_eq_ok {γ : Type} {p : Prop} [Decidable p] {e : ε} {k : γ → Except ε α}
    {x : Except ε α} {a : α} :
    (if p then throw e >>= k else x) = .ok a ↔ ¬p ∧ x = .ok a := by
  by_cases h : p <;> simp [h, bind_eq_ok]

/-- The same of a guard with nothing behind it. -/
theorem lastGuard_eq_ok {p : Prop} [Decidable p] {e : ε} {x : Except ε α} {a : α} :
    (if p then throw e else x) = .ok a ↔ ¬p ∧ x = .ok a := by
  by_cases h : p <;> simp [h]

theorem eq_ok_of_toOption {x : Except ε α} {a : α} (h : x.toOption = some a) : x = .ok a := by
  cases x with
  | error e => cases h
  | ok b => exact congrArg Except.ok (Option.some.inj h)

theorem mapM_eq_ok {f : α → Except ε β} {as : List α} {bs : List β} :
    as.mapM f = .ok bs ↔ List.Forall₂ (fun a b => f a = .ok b) as bs := by
  induction as generalizing bs with
  | nil => cases bs <;> simp
  | cons a as ih =>
      rw [List.mapM_cons, bind_eq_ok]
      simp only [bind_eq_ok, pure_eq_ok, ih]
      constructor
      · rintro ⟨b, hb, bs', hbs, rfl⟩
        exact .cons hb hbs
      · rintro (_ | ⟨hb, hbs⟩)
        exact ⟨_, hb, _, hbs, rfl⟩

/-! ## Chains of checks that fail -/

theorem bind_eq_error {x : Except ε α} {f : α → Except ε β} {e : ε} :
    (x >>= f) = .error e ↔ x = .error e ∨ ∃ a, x = .ok a ∧ f a = .error e := by
  cases x <;> simp [bind, Except.bind]

@[simp] theorem pure_eq_error {a : α} {e : ε} : (pure a : Except ε α) = .error e ↔ False := by
  simp [pure, Except.pure]

@[simp] theorem throw_eq_error {e e' : ε} : (throw e : Except ε α) = .error e' ↔ e = e' := by
  simp [throw, throwThe, MonadExceptOf.throw]

theorem guard_eq_error {γ : Type} {p : Prop} [Decidable p] {e e' : ε} {k : γ → Except ε α}
    {x : Except ε α} :
    (if p then throw e >>= k else x) = .error e' ↔ p ∧ e = e' ∨ ¬p ∧ x = .error e' := by
  by_cases h : p <;> simp [h, bind_eq_error]

theorem lastGuard_eq_error {p : Prop} [Decidable p] {e e' : ε} {x : Except ε α} :
    (if p then throw e else x) = .error e' ↔ p ∧ e = e' ∨ ¬p ∧ x = .error e' := by
  by_cases h : p <;> simp [h]

/-- An error that neither step fails with is none of both together. -/
theorem bind_ne_error {x : Except ε α} {f : α → Except ε β} {e : ε} (hx : x ≠ .error e)
    (hf : ∀ a, f a ≠ .error e) : (x >>= f) ≠ .error e := by
  intro h
  rcases bind_eq_error.mp h with h | ⟨a, -, h⟩
  · exact hx h
  · exact hf a h

theorem guard_ne_error {γ : Type} {p : Prop} [Decidable p] {e e' : ε} {k : γ → Except ε α}
    {x : Except ε α} (he : e ≠ e') (hx : x ≠ .error e') :
    (if p then throw e >>= k else x) ≠ .error e' := by
  intro h
  rcases guard_eq_error.mp h with ⟨-, h⟩ | ⟨-, h⟩
  · exact he h
  · exact hx h

theorem pure_ne_error {a : α} {e : ε} : (pure a : Except ε α) ≠ .error e := by
  simp

/-- Items that are checked in order fail for one of them. -/
theorem exists_of_mapM_eq_error {f : α → Except ε β} {as : List α} {e : ε}
    (h : as.mapM f = .error e) : ∃ a ∈ as, f a = .error e := by
  induction as with
  | nil => simp at h
  | cons a as ih =>
      rw [List.mapM_cons, bind_eq_error] at h
      rcases h with h | ⟨b, -, h⟩
      · exact ⟨a, by simp, h⟩
      · rcases bind_eq_error.mp h with h | ⟨bs, -, h⟩
        · obtain ⟨x, hx, hfails⟩ := ih h
          exact ⟨x, by simp [hx], hfails⟩
        · simp at h

/-! ## Kinds of faults -/

/-- A check fails with a fault that is reported under a kind. -/
def FailsAs (x : Except Fault α) (kind : ErrorKind) : Prop :=
  ∃ f, x = .error f ∧ f.kind = kind

variable {kind : ErrorKind}

@[simp] theorem failsAs_ok {a : α} : FailsAs (.ok a) kind ↔ False := by
  simp [FailsAs]

@[simp] theorem failsAs_error {f : Fault} : FailsAs (.error f : Except Fault α) kind ↔ f.kind = kind := by
  simp [FailsAs]

@[simp] theorem failsAs_pure {a : α} : FailsAs (pure a) kind ↔ False :=
  failsAs_ok

/-- Of two steps the first fails, or else the second. -/
theorem failsAs_bind {x : Except Fault α} {f : α → Except Fault β} :
    FailsAs (x >>= f) kind ↔ FailsAs x kind ∨ ∃ a, x = .ok a ∧ FailsAs (f a) kind := by
  cases x <;> simp [bind, Except.bind]

theorem failsAs_guard {γ : Type} {p : Prop} [Decidable p] {e : Fault} {k : γ → Except Fault α}
    {x : Except Fault α} : FailsAs (if p then throw e >>= k else x) kind ↔
      p ∧ e.kind = kind ∨ ¬p ∧ FailsAs x kind := by
  by_cases h : p
  · simp only [h, if_true, true_and, not_true_eq_false, false_and, or_false]
    exact failsAs_error
  · simp [h]

/-! ## Items matched one by one -/

theorem exists_forall₂_iff {R : α → β → Prop} {as : List α} :
    (∃ bs, List.Forall₂ R as bs) ↔ ∀ a ∈ as, ∃ b, R a b := by
  induction as with
  | nil => simp
  | cons a as ih =>
      constructor
      · rintro ⟨_, _ | ⟨hab, hbs⟩⟩
        simpa using ⟨⟨_, hab⟩, ih.mp ⟨_, hbs⟩⟩
      · intro h
        obtain ⟨b, hb⟩ := h a (by simp)
        obtain ⟨bs, hbs⟩ := ih.mpr fun x hx => h x (by simp [hx])
        exact ⟨b :: bs, .cons hb hbs⟩

theorem exists_of_mem_right {R : α → β → Prop} {as : List α} {bs : List β}
    (h : List.Forall₂ R as bs) {b : β} (hb : b ∈ bs) : ∃ a ∈ as, R a b := by
  induction h with
  | nil => simp at hb
  | cons hab _ ih =>
      rcases List.mem_cons.mp hb with rfl | hb
      · exact ⟨_, by simp, hab⟩
      · obtain ⟨a, ha, h⟩ := ih hb
        exact ⟨a, by simp [ha], h⟩

theorem exists_of_mem_left {R : α → β → Prop} {as : List α} {bs : List β}
    (h : List.Forall₂ R as bs) {a : α} (ha : a ∈ as) : ∃ b ∈ bs, R a b :=
  exists_of_mem_right h.flip ha

/-- Items that keep their keys have the same list of keys. -/
theorem map_eq_map_of_forall₂ {γ : Type} {R : α → β → Prop} {f : α → γ} {g : β → γ}
    {as : List α} {bs : List β} (h : List.Forall₂ R as bs)
    (keep : ∀ a b, R a b → f a = g b) : as.map f = bs.map g := by
  induction h with
  | nil => rfl
  | cons hab _ ih => simp [keep _ _ hab, ih]

/-- Searching matched items for a key finds matched items. -/
theorem find?_forall₂ {R : α → β → Prop} {key : α → String} {key' : β → String} {as : List α}
    {bs : List β} (h : List.Forall₂ R as bs) (keep : ∀ a b, R a b → key a = key' b)
    (name : String) : Option.Rel R (as.find? (key · = name)) (bs.find? (key' · = name)) := by
  induction h with
  | nil => exact .none
  | @cons a b as bs hab _ ih =>
      have hkey := keep a b hab
      by_cases hname : key' b = name
      · rw [List.find?_cons_of_pos (by simp [hkey, hname]), List.find?_cons_of_pos (by simp [hname])]
        exact .some hab
      · rw [List.find?_cons_of_neg (by simp [hkey, hname]), List.find?_cons_of_neg (by simp [hname])]
        exact ih

/-! ## Items of a key -/

section Keys

variable {κ : Type} [DecidableEq κ] {key : α → κ} {as : List α}

/-- Of items with distinct keys, the one of a key is the first one of that key. -/
theorem find?_eq_some_of_nodup (h : (as.map key).Nodup) {a : α} (ha : a ∈ as) :
    as.find? (key · = key a) = some a := by
  induction as with
  | nil => simp at ha
  | cons b as ih =>
      rw [List.map_cons, List.nodup_cons] at h
      rcases List.mem_cons.mp ha with rfl | ha
      · simp
      · have hne : key b ≠ key a := fun he => h.1 (he ▸ List.mem_map_of_mem ha)
        rw [List.find?_cons_of_neg (by simpa using hne)]
        exact ih h.2 ha

theorem find?_eq_some_of_named {k : κ} {a : α} (h : as.find? (key · = k) = some a) :
    a ∈ as ∧ key a = k :=
  ⟨List.mem_of_find?_eq_some h, by simpa using List.find?_some h⟩

/-- Where keys are distinct, the item of a key is found by it. -/
theorem find?_eq_some_iff_of_nodup (h : (as.map key).Nodup) {k : κ} {a : α} :
    as.find? (key · = k) = some a ↔ a ∈ as ∧ key a = k := by
  refine ⟨find?_eq_some_of_named, ?_⟩
  rintro ⟨ha, rfl⟩
  exact find?_eq_some_of_nodup h ha

end Keys

section Lookups

variable {κ : Type} [BEq κ] [LawfulBEq κ] {entries : List (κ × β)} {k : κ} {b : β}

theorem mem_of_lookup (h : entries.lookup k = some b) : (k, b) ∈ entries := by
  obtain ⟨before, rest, rfl, -⟩ := List.lookup_eq_some_iff.mp h
  exact List.mem_append_right _ (List.mem_cons_self ..)

/-- Where keys are distinct, a key leads to each entry that has it. -/
theorem lookup_eq_some_iff_of_nodup (h : (entries.map Prod.fst).Nodup) :
    entries.lookup k = some b ↔ (k, b) ∈ entries := by
  refine ⟨mem_of_lookup, fun hmem => ?_⟩
  obtain ⟨before, rest, rfl⟩ := List.append_of_mem hmem
  refine List.lookup_eq_some_iff.mpr ⟨before, rest, rfl, fun p hp => ?_⟩
  rw [List.map_append, List.nodup_append] at h
  rw [bne_iff_ne]
  exact (h.2.2 _ (List.mem_map_of_mem hp) _ (List.mem_map_of_mem (List.mem_cons_self ..))).symm

end Lookups

/-! ## Places of failures -/

@[simp] theorem Failure.unplaced_eq_ok {r : Except Fault α} {a : α} :
    Failure.unplaced r = .ok a ↔ r = .ok a := by
  cases r <;> simp [Failure.unplaced, Except.mapError]

@[simp] theorem Failure.within_eq_ok {place : Location} {r : Except Failure α} {a : α} :
    Failure.within place r = .ok a ↔ r = .ok a := by
  cases r <;> simp [Failure.within, Except.mapError]

theorem Failure.unplaced_eq_error {r : Except Fault α} {e : Failure} :
    Failure.unplaced r = .error e ↔ ∃ f, r = .error f ∧ e = { subject := f } := by
  cases r <;> simp [Failure.unplaced, Except.mapError, eq_comm]

theorem Failure.within_eq_error {place : Location} {r : Except Failure α} {e : Failure} :
    Failure.within place r = .error e ↔ ∃ inner, r = .error inner ∧ e = inner.locate place := by
  cases r <;> simp [Failure.within, Except.mapError, eq_comm]

/-- Whoever is nearest to a fault has placed it. -/
@[simp] theorem Located.location_locate {e : Located α} {place : Location} :
    (e.locate place).location = some (e.location.getD place) := by
  unfold Located.locate
  split <;> simp_all

@[simp] theorem Located.subject_locate {e : Located α} {place : Location} :
    (e.locate place).subject = e.subject := by
  unfold Located.locate
  split <;> rfl

/-! ## Lists without repetition -/

/-- Compiling without repetition succeeds exactly on distinct keys that were not seen before, and then
compiles item by item. -/
theorem compileDistinct_eq_ok {key : α → String} {repeated : α → Failure}
    {step : α → Except Failure β} {seen : List String} {as : List α} {bs : List β} :
    compileDistinct key repeated step seen as = .ok bs ↔
      (as.map key).Nodup ∧ (∀ a ∈ as, key a ∉ seen) ∧
        List.Forall₂ (fun a b => step a = .ok b) as bs := by
  induction as generalizing seen bs with
  | nil => cases bs <;> simp [compileDistinct]
  | cons a as ih =>
      by_cases h : key a ∈ seen
      · simp [compileDistinct, h]
      · simp only [compileDistinct, h, if_false, bind_eq_ok, pure_eq_ok, ih]
        constructor
        · rintro ⟨b, hb, bs', ⟨hnodup, hseen, hbs⟩, rfl⟩
          refine ⟨?_, ?_, .cons hb hbs⟩
          · rw [List.map_cons, List.nodup_cons]
            refine ⟨?_, hnodup⟩
            intro hmem
            obtain ⟨x, hx, hkey⟩ := List.mem_map.mp hmem
            exact hseen x hx (by simp [hkey])
          · intro x hx
            rcases List.mem_cons.mp hx with rfl | hx
            · exact h
            · exact fun hs => hseen x hx (by simp [hs])
        · rintro ⟨hnodup, hseen, _ | ⟨hb, hbs⟩⟩
          rw [List.map_cons, List.nodup_cons] at hnodup
          refine ⟨_, hb, _, ⟨hnodup.2, ?_, hbs⟩, rfl⟩
          intro x hx
          have hne : key x ≠ key a := fun he => hnodup.1 (he ▸ List.mem_map_of_mem hx)
          simp [hne, hseen x (by simp [hx])]

/-- Compiling without repetition fails for a key that is seen again, or for an item. -/
theorem compileDistinct_eq_error {key : α → String} {repeated : α → Failure}
    {step : α → Except Failure β} {seen : List String} {as : List α} {e : Failure}
    (h : compileDistinct key repeated step seen as = .error e) :
    (∃ a ∈ as, e = repeated a ∧ (key a ∈ seen ∨ 1 < as.countP (key · = key a))) ∨
      ∃ a ∈ as, step a = .error e := by
  induction as generalizing seen with
  | nil => cases h
  | cons a as ih =>
      rw [compileDistinct] at h
      split at h
      · next hseen =>
          cases h
          exact .inl ⟨a, by simp, rfl, .inl hseen⟩
      · rcases bind_eq_error.mp h with h | ⟨b, -, h⟩
        · exact .inr ⟨a, by simp, h⟩
        · rcases bind_eq_error.mp h with h | ⟨bs, -, h⟩
          · rcases ih h with ⟨x, hx, rfl, hagain⟩ | ⟨x, hx, hfails⟩
            · refine .inl ⟨x, by simp [hx], rfl, ?_⟩
              by_cases hkey : key a = key x
              · have hcount : 0 < as.countP (key · = key x) :=
                  List.countP_pos_iff.mpr ⟨x, hx, by simp⟩
                exact .inr (by simpa [hkey] using hcount)
              · rcases hagain with hagain | hagain
                · exact .inl (by simpa [Ne.symm hkey] using hagain)
                · exact .inr (by simpa [hkey] using hagain)
            · exact .inr ⟨x, by simp [hx], hfails⟩
          · simp at h

end SchemaCompiler
