import SchemaCompiler.Proofs.ForeignKey.Resolution
import Mathlib.Logic.Relation

/-! # Where a failed resolution is placed

A search that fails far from where it began is placed at the target that it failed in. The search had
entered other targets on its way there, and they may be what it failed over. All of them lead to that
target, though, so that it does not resolve on its own either. -/

namespace SchemaCompiler

namespace ForeignKey

variable {databases : List DatabaseDeclaration} {unvisited : List Location}
  {home : DatabaseDeclaration} {c : ColumnDeclaration} {t u : Target} {column : Column} {e : Failure}

/-! ## Targets that do not settle -/

/-- The path of one target denotes the other. -/
def Hops (databases : List DatabaseDeclaration) (t u : Target) : Prop :=
  t.column.isReference ∧ ∃ path, t.column.path = some path ∧
    findTarget databases t.database path = .ok u

/-- No number of hops settles a target. -/
def Stuck (databases : List DatabaseDeclaration) (t : Target) : Prop :=
  ∀ n column, ¬Settles databases n t column

theorem Hops.eq_next (h : Hops databases t u) {path : String} {next : Target}
    (hpath : t.column.path = some path) (hnext : findTarget databases t.database path = .ok next) :
    next = u := by
  obtain ⟨-, path', hpath', hu⟩ := h
  cases hpath.symm.trans hpath'
  exact Except.ok.inj (hnext.symm.trans hu)

/-- A target that settles is one hop behind the target that its path denotes. -/
theorem Settles.of_hops {n : Nat} (h : Settles databases n t column) (hhops : Hops databases t u) :
    ∃ m resolved, m < n ∧ Settles databases m u resolved := by
  cases h with
  | declared hkind => simp [hhops.1] at hkind
  | reference _ hpath hnext hsettles _ =>
      cases hhops.eq_next hpath hnext
      exact ⟨_, _, Nat.lt_succ_self _, hsettles⟩

theorem Settles.of_transGen {n : Nat} (h : Settles databases n t column)
    (hhops : Relation.TransGen (Hops databases) t u) :
    ∃ m resolved, m < n ∧ Settles databases m u resolved := by
  induction hhops with
  | single hhops => exact h.of_hops hhops
  | tail _ hhops ih =>
      obtain ⟨m, resolved, hm, hsettles⟩ := ih
      obtain ⟨k, resolved', hk, hsettles'⟩ := hsettles.of_hops hhops
      exact ⟨k, resolved', hk.trans hm, hsettles'⟩

/-- What leads back to itself never settles. -/
theorem stuck_of_cycle (h : Relation.TransGen (Hops databases) t t) : Stuck databases t := by
  intro n column hsettles
  obtain ⟨m, resolved, hm, hsettles'⟩ := hsettles.of_transGen h
  exact hm.ne (hsettles'.unique hsettles).1

/-- A column that is declared directly settles only if it is valid. -/
theorem stuck_of_validate (hkind : t.column.isReference = false) {f : Fault}
    (h : t.column.validate = .error f) : Stuck databases t := by
  rintro n column (⟨-, hvalidate⟩ | ⟨hreference⟩)
  · cases h.symm.trans hvalidate
  · simp [hkind] at hreference

theorem settles_of_enter (h : enter databases unvisited t = .ok column) :
    ∃ n, Settles databases n t column := by
  unfold enter at h
  split at h
  · next hkind =>
      obtain ⟨path, next, n, resolved, hpath, hnext, hsettles, hrefer⟩ := settles_of_resolveFrom h
      exact ⟨n + 1, .reference hkind hpath hnext hsettles hrefer⟩
  · next hkind => exact ⟨0, .declared (by simpa using hkind) (by simpa using h)⟩

/-! ## Failures of one step -/

/-- Why one step of the search fails. Only the failure of its target has a place. -/
inductive Rejects (databases : List DatabaseDeclaration) (unvisited : List Location)
    (home : DatabaseDeclaration) (c : ColumnDeclaration) : Failure → Prop where
  | astray (f : Fault)
      (h : ∀ path t, c.path = some path → findTarget databases home path ≠ .ok t) :
      Rejects databases unvisited home c { subject := f }
  | cycle {path t} (f : Fault) (hpath : c.path = some path)
      (ht : findTarget databases home path = .ok t) (hvisited : t.location ∉ unvisited) :
      Rejects databases unvisited home c { subject := f }
  | target {path t e} (hpath : c.path = some path) (ht : findTarget databases home path = .ok t)
      (hentered : t.location ∈ unvisited)
      (h : Failure.within t.location (enter databases unvisited t) = .error e) :
      Rejects databases unvisited home c e
  | unfit {path t resolved f} (hpath : c.path = some path)
      (ht : findTarget databases home path = .ok t)
      (henter : enter databases unvisited t = .ok resolved)
      (h : c.refer home path t resolved = .error f) :
      Rejects databases unvisited home c { subject := f }

theorem rejects_of_resolveFrom (h : resolveFrom databases unvisited home c = .error e) :
    Rejects databases unvisited home c e := by
  cases hpath : c.path with
  | none =>
      simp only [resolveFrom, hpath, Except.error.injEq] at h
      subst h
      exact .astray _ (by simp [hpath])
  | some path =>
      cases ht : findTarget databases home path with
      | error f =>
          simp only [resolveFrom, hpath, ht, Except.error.injEq] at h
          subst h
          refine .astray _ ?_
          intro path' t hpath' ht'
          cases hpath.symm.trans hpath'
          cases ht.symm.trans ht'
      | ok t =>
          rw [resolveFrom_of_target hpath ht] at h
          split at h
          · next hentered =>
              rcases bind_eq_error.mp h with h | ⟨resolved, henter, h⟩
              · exact .target hpath ht hentered h
              · obtain ⟨f, hrefer, rfl⟩ := Failure.unplaced_eq_error.mp h
                exact .unfit hpath ht (by simpa using henter) hrefer
          · next hvisited =>
              cases h
              exact .cycle _ hpath ht hvisited

/-! ## Failures of a search -/

/-- All targets that the search may not enter any more lead to the one that it is about to enter. -/
def Trail (databases : List DatabaseDeclaration) (unvisited : List Location) (t : Target) : Prop :=
  ∀ u : Target, u.Declared databases → u.location ∉ unvisited →
    Relation.TransGen (Hops databases) u t

/-- Struck out is the target itself, or one on the trail. -/
theorem Trail.of_notMem_strike (h : Trail databases unvisited t)
    (hnames : (databases.map (·.name)).Nodup) (ht : t.Declared databases)
    (hu : u.Declared databases) (hvisited : u.location ∉ strike t.location unvisited) :
    Relation.ReflTransGen (Hops databases) u t := by
  rw [mem_strike, not_and_not_right] at hvisited
  by_cases hmem : u.location ∈ unvisited
  · rw [hu.eq_of_location_eq hnames ht (hvisited hmem)]
  · exact (h u hu hmem).to_reflTransGen

theorem Trail.next (h : Trail databases unvisited t) (hnames : (databases.map (·.name)).Nodup)
    (ht : t.Declared databases) (hhops : Hops databases t u) :
    Trail databases (strike t.location unvisited) u :=
  fun _ hv hvisited => Relation.TransGen.tail' (h.of_notMem_strike hnames ht hv hvisited) hhops

/-- A failure is placed at a declared target that does not settle. -/
def Blames (databases : List DatabaseDeclaration) (e : Failure) : Prop :=
  ∃ u : Target, u.Declared databases ∧ Stuck databases u ∧ e.location = some u.location

theorem enter_blames (hnames : (databases.map (·.name)).Nodup) (ht : t.Declared databases)
    (htrail : Trail databases unvisited t) (hentered : t.location ∈ unvisited)
    (h : Failure.within t.location (enter databases unvisited t) = .error e) :
    Blames databases e := by
  -- as in the resolver, each target that is entered leaves fewer places
  induction hlength : unvisited.length using Nat.strongRecOn generalizing unvisited t e with
  | _ length ih =>
      obtain ⟨inner, henter, rfl⟩ := Failure.within_eq_error.mp h
      have hself : Stuck databases t → inner.location = none →
          Blames databases (inner.locate t.location) := by
        intro hstuck hlocation
        exact ⟨t, ht, hstuck, by simp [hlocation]⟩
      unfold enter at henter
      split at henter
      · next hkind =>
          cases rejects_of_resolveFrom henter with
          | astray f hastray =>
              refine hself ?_ rfl
              rintro n column (⟨hdeclared⟩ | ⟨-, hpath, hnext, -⟩)
              · simp [hkind] at hdeclared
              · exact hastray _ _ hpath hnext
          | @cycle path next f hpath hnext hvisited =>
              have hdeclared := findTarget_declared ht.database hnext
              have hhops : Hops databases t next := ⟨hkind, path, hpath, hnext⟩
              have htrail' := htrail.of_notMem_strike hnames ht hdeclared hvisited
              exact hself (stuck_of_cycle (Relation.TransGen.head' hhops htrail')) rfl
          | @target path next _ hpath hnext hentered' hwithin =>
              have hdeclared := findTarget_declared ht.database hnext
              have hhops : Hops databases t next := ⟨hkind, path, hpath, hnext⟩
              obtain ⟨u, hu, hstuck, hlocation⟩ := ih _ (hlength ▸ length_strike_lt hentered)
                hdeclared (htrail.next hnames ht hhops) hentered' hwithin rfl
              exact ⟨u, hu, hstuck, by simp [hlocation]⟩
          | @unfit path next resolved f hpath hnext henter' hrefer =>
              refine hself ?_ rfl
              obtain ⟨n, hsettles⟩ := settles_of_enter henter'
              rintro m column (⟨hdeclared⟩ | ⟨-, hpath', hnext', hsettles', hrefer'⟩)
              · simp [hkind] at hdeclared
              · cases hpath.symm.trans hpath'
                cases hnext.symm.trans hnext'
                obtain ⟨-, rfl⟩ := hsettles.unique hsettles'
                cases hrefer.symm.trans hrefer'
      · next hkind =>
          obtain ⟨f, hvalidate, rfl⟩ := Failure.unplaced_eq_error.mp henter
          exact hself (stuck_of_validate (by simpa using hkind) hvalidate) rfl

/-- Where a reference fails to resolve, its target is to blame, or the reference itself. -/
theorem resolve_blames (hnames : (databases.map (·.name)).Nodup) (hhome : home ∈ databases)
    (h : resolve databases home c = .error e) : e.location = none ∨ Blames databases e := by
  cases rejects_of_resolveFrom h with
  | astray => exact .inl rfl
  | cycle => exact .inl rfl
  | unfit => exact .inl rfl
  | target hpath ht hentered hwithin =>
      refine .inr (enter_blames hnames (findTarget_declared hhome ht) ?_ hentered hwithin)
      -- at first nothing is struck out
      exact fun u hu hvisited => absurd (mem_places_cons hu home) hvisited

end ForeignKey

end SchemaCompiler
