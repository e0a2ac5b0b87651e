import SchemaCompiler.ForeignKey.Resolution
import SchemaCompiler.Proofs.Column.Validation
import SchemaCompiler.Proofs.ForeignKey.Path

/-! # Resolution of references as a derivation

The resolver keeps a list of the places that it has not entered yet. The derivation below knows nothing
of such a list: it only composes hops. On databases with distinct names the two agree. -/

namespace SchemaCompiler

/-- The types that references may point at are the integers, serials and codes, which all have bounds. -/
theorem ColumnType.exists_referable?_iff {type : ColumnType} {bounds : Bounds} :
    (∃ size unsigned, type.referable? = some (size, unsigned, bounds)) ↔
      (type.kind = .integer ∨ type.kind = .serial ∨ type.kind = .code) ∧
        type.bounds? = some bounds := by
  cases type <;> simp [referable?, kind, bounds?]

namespace ColumnDeclaration

variable {c : ColumnDeclaration} {home : DatabaseDeclaration} {path : String} {t : Target}
  {resolved column : Column}

theorem deleteAction_eq_ok {action : Option OnDelete} : c.deleteAction = .ok action ↔
    c.onDelete = none ∧ action = none ∨ ∃ text a, c.onDelete = some text ∧
      OnDelete.ofText? text = some a ∧ (a = .setNull → c.nullable) ∧ action = some a := by
  unfold deleteAction
  cases c.onDelete with
  | none => simp [@eq_comm _ none]
  | some text =>
      cases haction : OnDelete.ofText? text with
      | none => simp [haction]
      | some a => cases a <;> cases c.nullable <;> simp [haction, @eq_comm _ action]

theorem refer_eq_ok : c.refer home path t resolved = .ok column ↔
    resolved.nullable = false ∧ ∃ size unsigned bounds onDelete declared default,
      resolved.type.referable? = some (size, unsigned, bounds) ∧
      c.deleteAction = .ok onDelete ∧ c.scalarDefault = .ok declared ∧
      integerDefault bounds declared = .ok default ∧
      ⟨c.name, c.nullable, default, .integer size unsigned false bounds,
        some ⟨t.database.name, t.database.name ≠ home.name, t.table.name, t.column.name,
          onDelete⟩⟩ = column := by
  simp only [refer, guard_eq_ok, Bool.not_eq_true]
  refine and_congr_right fun _ => ?_
  cases hreferable : resolved.type.referable? with
  | none => simp
  | some inherited =>
      obtain ⟨size, unsigned, bounds⟩ := inherited
      simp only [bind_eq_ok, pure_eq_ok, Option.some.injEq, Prod.mk.injEq]
      constructor
      · rintro ⟨onDelete, hdelete, declared, hdeclared, default, hdefault, rfl⟩
        exact ⟨_, _, _, onDelete, declared, default, ⟨rfl, rfl, rfl⟩, hdelete, hdeclared, hdefault,
          rfl⟩
      · rintro ⟨_, _, _, onDelete, declared, default, ⟨rfl, rfl, rfl⟩, hdelete, hdeclared, hdefault,
          rfl⟩
        exact ⟨onDelete, hdelete, declared, hdeclared, default, hdefault, rfl⟩

theorem refer_keeps (h : c.refer home path t resolved = .ok column) : c.Keeps column := by
  obtain ⟨-, _, _, _, _, _, _, -, -, -, -, rfl⟩ := refer_eq_ok.mp h
  exact ⟨rfl, rfl⟩

/-- A reference hands on what it takes over. -/
theorem refer_referable? (h : c.refer home path t resolved = .ok column) :
    column.type.referable? = resolved.type.referable? := by
  obtain ⟨-, _, _, _, _, _, _, hreferable, -, -, -, rfl⟩ := refer_eq_ok.mp h
  exact hreferable.symm

end ColumnDeclaration

namespace ForeignKey

/-! ## Derivations -/

/-- A target settles as a column: at once if it is declared directly, and otherwise by so many hops. -/
inductive Settles (databases : List DatabaseDeclaration) : Nat → Target → Column → Prop where
  | declared {t column} (hkind : t.column.isReference = false)
      (hvalidate : t.column.validate = .ok column) : Settles databases 0 t column
  | reference {n t path next resolved column} (hkind : t.column.isReference)
      (hpath : t.column.path = some path)
      (hnext : findTarget databases t.database path = .ok next)
      (hsettles : Settles databases n next resolved)
      (hrefer : t.column.refer t.database path next resolved = .ok column) :
      Settles databases (n + 1) t column

/-- A reference resolves as a column when its target settles. -/
def Resolves (databases : List DatabaseDeclaration) (home : DatabaseDeclaration)
    (c : ColumnDeclaration) (column : Column) : Prop :=
  ∃ path t n resolved, c.path = some path ∧ findTarget databases home path = .ok t ∧
    Settles databases n t resolved ∧ c.refer home path t resolved = .ok column

variable {databases : List DatabaseDeclaration} {unvisited : List Location}
  {home : DatabaseDeclaration} {c : ColumnDeclaration} {column : Column}

theorem Settles.keeps {n : Nat} {t : Target} (h : Settles databases n t column) :
    t.column.Keeps column := by
  cases h with
  | declared _ hvalidate =>
      obtain ⟨_, -, houtline⟩ := ColumnDeclaration.validate_outline hvalidate
      exact houtline.toKeeps
  | reference _ _ _ _ hrefer => exact ColumnDeclaration.refer_keeps hrefer

/-- A target settles in one way only, and by one number of hops. -/
theorem Settles.unique {n m : Nat} {t : Target} {column' : Column}
    (h : Settles databases n t column) (h' : Settles databases m t column') :
    n = m ∧ column = column' := by
  induction h generalizing m column' with
  | declared hkind hvalidate =>
      cases h' with
      | declared _ hvalidate' => exact ⟨rfl, Except.ok.inj (hvalidate.symm.trans hvalidate')⟩
      | reference hkind' => simp [hkind] at hkind'
  | reference hkind hpath hnext _ hrefer ih =>
      cases h' with
      | declared hkind' => simp [hkind] at hkind'
      | reference _ hpath' hnext' hsettles' hrefer' =>
          cases hpath.symm.trans hpath'
          cases hnext.symm.trans hnext'
          obtain ⟨rfl, rfl⟩ := ih hsettles'
          exact ⟨rfl, Except.ok.inj (hrefer.symm.trans hrefer')⟩

/-- Targets that settle by different numbers of hops lie in different places. -/
theorem Settles.location_ne (hnames : (databases.map (·.name)).Nodup) {n m : Nat} {t u : Target}
    {column' : Column} (h : Settles databases n t column) (ht : t.Declared databases)
    (hu : u.Declared databases) (h' : Settles databases m u column') (hne : n ≠ m) :
    t.location ≠ u.location := by
  intro hlocation
  rw [Target.Declared.eq_of_location_eq hnames ht hu hlocation] at h
  exact hne (h.unique h').1

/-! ## Agreement with the resolver -/

theorem mem_strike {place other : Location} :
    other ∈ strike place unvisited ↔ other ∈ unvisited ∧ other ≠ place := by
  simp [strike]

/-- What a target becomes when the search enters it. -/
def enter (databases : List DatabaseDeclaration) (unvisited : List Location) (t : Target) :
    Except Failure Column :=
  if t.column.isReference then
    resolveFrom databases (strike t.location unvisited) t.database t.column
  else
    Failure.unplaced t.column.validate

/-- One step of the search: it enters the target, unless that is a cycle. -/
theorem resolveFrom_of_target {path : String} {t : Target} (hpath : c.path = some path)
    (ht : findTarget databases home path = .ok t) : resolveFrom databases unvisited home c =
      if t.location ∈ unvisited then
        Failure.within t.location (enter databases unvisited t) >>= fun resolved =>
          Failure.unplaced (c.refer home path t resolved)
      else .error { subject := .referenceCycle t.location } := by
  rw [resolveFrom, hpath]
  simp only [ht]
  by_cases hentered : t.location ∈ unvisited
  · simp only [hentered, dif_pos, if_true]
    rw [← enter]
    cases enter databases unvisited t <;> rfl
  · simp [hentered]

/-- The same of a path that may lead nowhere. -/
theorem resolveFrom_of_path {path : String} (hpath : c.path = some path) :
    resolveFrom databases unvisited home c =
      Failure.unplaced (findTarget databases home path) >>= fun t =>
        if t.location ∈ unvisited then
          Failure.within t.location (enter databases unvisited t) >>= fun resolved =>
            Failure.unplaced (c.refer home path t resolved)
        else .error { subject := .referenceCycle t.location } := by
  cases ht : findTarget databases home path with
  | error f =>
      rw [resolveFrom, hpath]
      simp only [ht]
      rfl
  | ok t =>
      rw [resolveFrom_of_target hpath ht]
      rfl

theorem resolveFrom_eq_ok : resolveFrom databases unvisited home c = .ok column ↔
    ∃ path t resolved, c.path = some path ∧ findTarget databases home path = .ok t ∧
      t.location ∈ unvisited ∧ enter databases unvisited t = .ok resolved ∧
      c.refer home path t resolved = .ok column := by
  constructor
  · intro h
    cases hpath : c.path with
    | none => simp [resolveFrom, hpath] at h
    | some path =>
        cases ht : findTarget databases home path with
        | error f => simp [resolveFrom, hpath, ht] at h
        | ok t =>
            rw [resolveFrom_of_target hpath ht] at h
            split at h
            · next hentered =>
                obtain ⟨resolved, henter, hrefer⟩ := bind_eq_ok.mp h
                exact ⟨path, t, resolved, rfl, ht, hentered, by simpa using henter,
                  by simpa using hrefer⟩
            · cases h
  · rintro ⟨path, t, resolved, hpath, ht, hentered, henter, hrefer⟩
    rw [resolveFrom_of_target hpath ht, if_pos hentered]
    exact bind_eq_ok.mpr ⟨resolved, by simpa using henter, by simpa using hrefer⟩

theorem settles_of_resolveFrom (h : resolveFrom databases unvisited home c = .ok column) :
    Resolves databases home c column := by
  -- each hop strikes out a place, so the list of places bounds the number of hops
  induction hlength : unvisited.length using Nat.strongRecOn generalizing unvisited home c column with
  | _ length ih =>
      obtain ⟨path, t, resolved, hpath, ht, hentered, henter, hrefer⟩ := resolveFrom_eq_ok.mp h
      unfold enter at henter
      split at henter
      · next hkind =>
          obtain ⟨path', next, n, resolved', hpath', hnext, hsettles, hrefer'⟩ :=
            ih _ (hlength ▸ length_strike_lt hentered) henter rfl
          exact ⟨path, t, n + 1, resolved, hpath, ht,
            .reference hkind hpath' hnext hsettles hrefer', hrefer⟩
      · next hkind =>
          exact ⟨path, t, 0, resolved, hpath, ht,
            .declared (by simpa using hkind) (by simpa using henter), hrefer⟩

/-- A search that may still enter all declared targets within reach follows the derivation. -/
theorem enter_of_settles (hnames : (databases.map (·.name)).Nodup) {n : Nat} {t : Target}
    (h : Settles databases n t column) (ht : t.Declared databases)
    (hfree : ∀ u m r, u.Declared databases → Settles databases m u r → m < n →
      u.location ∈ strike t.location unvisited) :
    enter databases unvisited t = .ok column := by
  induction h generalizing unvisited with
  | declared hkind hvalidate => simp [enter, hkind, hvalidate]
  | @reference n t path next resolved column hkind hpath hnext hsettles hrefer ih =>
      have hdeclared := findTarget_declared ht.database hnext
      simp only [enter, hkind, if_true]
      refine resolveFrom_eq_ok.mpr ⟨path, next, resolved, hpath, hnext,
        hfree next n resolved hdeclared hsettles (Nat.lt_succ_self n), ?_, hrefer⟩
      apply ih hdeclared
      intro u m r hu hm hlt
      exact mem_strike.mpr ⟨hfree u m r hu hm (by omega),
        hm.location_ne hnames hu hdeclared hsettles (by omega)⟩

theorem mem_places {t : Target} (h : t.Declared databases) : t.location ∈ places databases := by
  simp only [places, List.mem_flatMap, List.mem_map]
  exact ⟨t.database, h.database, t.table, h.table_mem, t.column, h.column_mem, rfl⟩

/-- At first the search may enter every target. -/
theorem mem_places_cons {t : Target} (h : t.Declared databases) (home : DatabaseDeclaration) :
    t.location ∈ places (home :: databases) :=
  mem_places ⟨List.mem_cons_of_mem _ h.database, h.table, h.column⟩

/-- Where the target of a reference settles, the search reaches the reference itself. -/
theorem resolve_of_settles (hnames : (databases.map (·.name)).Nodup) (hhome : home ∈ databases)
    {path : String} {t : Target} {n : Nat} {resolved : Column} (hpath : c.path = some path)
    (ht : findTarget databases home path = .ok t) (hsettles : Settles databases n t resolved) :
    resolve databases home c = Failure.unplaced (c.refer home path t resolved) := by
  have hdeclared := findTarget_declared hhome ht
  have henter : enter databases (places (home :: databases)) t = .ok resolved := by
    apply enter_of_settles hnames hsettles hdeclared
    intro u m r hu hm hlt
    exact mem_strike.mpr
      ⟨mem_places_cons hu home, hm.location_ne hnames hu hdeclared hsettles (by omega)⟩
  rw [resolve, resolveFrom_of_target hpath ht, if_pos (mem_places_cons hdeclared home), henter]
  rfl

/-- The resolver finds exactly what the derivation describes. -/
theorem resolve_eq_ok (hnames : (databases.map (·.name)).Nodup) (hhome : home ∈ databases) :
    resolve databases home c = .ok column ↔ Resolves databases home c column := by
  refine ⟨settles_of_resolveFrom, ?_⟩
  rintro ⟨path, t, n, resolved, hpath, ht, hsettles, hrefer⟩
  rw [resolve_of_settles hnames hhome hpath ht hsettles, hrefer]
  rfl

end ForeignKey

end SchemaCompiler
