import SchemaCompiler.Proofs.Outcome

/-! # Two checks side by side

Checks of inputs that differ only in what does not matter go the same way. This is shown step by step:
related steps in a row are related, and so are lists that are checked item by item. -/

namespace SchemaCompiler

variable {ε ε' α α' β β' : Type}

/-- Both checks succeed with related results, or both fail with related errors. -/
inductive Paired (E : ε → ε' → Prop) (V : α → α' → Prop) : Except ε α → Except ε' α' → Prop where
  | ok {a a'} (h : V a a') : Paired E V (.ok a) (.ok a')
  | error {e e'} (h : E e e') : Paired E V (.error e) (.error e')

namespace Paired

variable {E : ε → ε' → Prop} {V : α → α' → Prop} {W : β → β' → Prop} {x : Except ε α}
  {x' : Except ε' α'}

/-! ## Steps -/

/-- A check that always gives the same is related to itself. -/
theorem rfl {x : Except ε α} {E : ε → ε → Prop} (hE : ∀ e, E e e) : Paired E Eq x x := by
  cases x with
  | ok a => exact .ok (Eq.refl a)
  | error e => exact .error (hE e)

theorem mono {E' : ε → ε' → Prop} {V' : α → α' → Prop} (h : Paired E V x x')
    (hE : ∀ e e', E e e' → E' e e') (hV : ∀ a a', V a a' → V' a a') : Paired E' V' x x' := by
  cases h with
  | ok h => exact .ok (hV _ _ h)
  | error h => exact .error (hE _ _ h)

theorem bind (h : Paired E V x x') {f : α → Except ε β} {f' : α' → Except ε' β'}
    (hf : ∀ a a', V a a' → Paired E W (f a) (f' a')) : Paired E W (x >>= f) (x' >>= f') := by
  cases h with
  | ok h => exact hf _ _ h
  | error h => exact .error h

/-- Related steps that give the very same result are followed by related steps. -/
theorem bindEq {x : Except ε α} {x' : Except ε' α} (h : Paired E Eq x x') {f : α → Except ε β}
    {f' : α → Except ε' β'} (hf : ∀ a, Paired E W (f a) (f' a)) :
    Paired E W (x >>= f) (x' >>= f') := by
  apply h.bind
  rintro a _ rfl
  exact hf a

/-- Guards that refuse the same inputs. -/
theorem guard {γ γ' : Type} {p p' : Prop} [Decidable p] [Decidable p'] {e : ε} {e' : ε'}
    {k : γ → Except ε α} {k' : γ' → Except ε' α'} (hp : p ↔ p') (he : E e e')
    (h : Paired E V x x') :
    Paired E V (if p then throw e >>= k else x) (if p' then throw e' >>= k' else x') := by
  by_cases hrefused : p
  · rw [if_pos hrefused, if_pos (hp.mp hrefused)]
    exact .error he
  · rw [if_neg hrefused, if_neg (hrefused ∘ hp.mpr)]
    exact h

/-- A check keeps its faults when they become failures without a place. -/
theorem unplacedLeft {E : Fault → ε' → Prop} {x : Except Fault α} {x' : Except ε' α'}
    (h : Paired E V x x') : Paired (fun e e' => E e.subject e') V (Failure.unplaced x) x' := by
  cases h with
  | ok h => exact .ok h
  | error h => exact .error h

/-! ## Lists -/

/-- Items that are the same one by one are the same list. -/
theorem ofForall₂ {x : Except ε (List α)} {x' : Except ε' (List α)}
    (h : Paired E (List.Forall₂ Eq) x x') : Paired E Eq x x' :=
  h.mono (fun _ _ he => he) fun _ _ hitems => List.forall₂_eq_eq_eq ▸ hitems

theorem mapM {f : α → Except ε β} {f' : α' → Except ε' β'} {as : List α} {as' : List α'}
    (h : List.Forall₂ (fun a a' => Paired E W (f a) (f' a')) as as') :
    Paired E (List.Forall₂ W) (as.mapM f) (as'.mapM f') := by
  induction h with
  | nil => exact .ok .nil
  | cons hfirst _ ih =>
      rw [List.mapM_cons, List.mapM_cons]
      apply hfirst.bind
      intro b b' hb
      apply ih.bind
      intro bs bs' hbs
      exact .ok (.cons hb hbs)

/-- Distinct items are compiled alike when their keys are the same. -/
theorem compileDistinct {E : Failure → Failure → Prop} {key : α → String} {key' : α' → String}
    {repeated : α → Failure} {repeated' : α' → Failure} {step : α → Except Failure β}
    {step' : α' → Except Failure β'} {seen : List String} {as : List α} {as' : List α'}
    (h : List.Forall₂ (fun a a' => key a = key' a' ∧ E (repeated a) (repeated' a') ∧
      Paired E W (step a) (step' a')) as as') :
    Paired E (List.Forall₂ W) (SchemaCompiler.compileDistinct key repeated step seen as)
      (SchemaCompiler.compileDistinct key' repeated' step' seen as') := by
  induction h generalizing seen with
  | nil => exact .ok .nil
  | @cons a a' as as' hfirst _ ih =>
      obtain ⟨hkey, hrepeated, hstep⟩ := hfirst
      rw [SchemaCompiler.compileDistinct, SchemaCompiler.compileDistinct, hkey]
      by_cases hseen : key' a' ∈ seen
      · rw [if_pos hseen, if_pos hseen]
        exact .error hrepeated
      · rw [if_neg hseen, if_neg hseen]
        apply hstep.bind
        intro b b' hb
        apply ih.bind
        intro bs bs' hbs
        exact .ok (.cons hb hbs)

end Paired

end SchemaCompiler
