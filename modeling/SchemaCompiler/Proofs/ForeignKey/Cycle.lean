import SchemaCompiler.Proofs.ForeignKey.Blame
import SchemaCompiler.Proofs.ForeignKey.Search
import Mathlib.Order.WellFounded

/-! # References that go round in a cycle

A reference is said to go round in a cycle when the resolver comes back to a target that it has entered.
This happens exactly where following the paths of references never ends: where no target is entered twice,
the chain of references comes to its last target, and only there is anything checked. -/

namespace SchemaCompiler

/-! ## Checks that know of no cycle -/

section

variable {field : String} {v : Json} {bounds : Bounds} {place : Location} {x : Option Json}

theorem safeInteger_ne_cycle : safeInteger field v ≠ .error (.referenceCycle place) := by
  intro h
  rcases kind_of_safeInteger_eq_error h with hkind | hkind
  · cases hkind
  · cases hkind

theorem safeIntegerWithin_ne_cycle :
    safeIntegerWithin bounds field v ≠ .error (.referenceCycle place) := by
  refine bind_ne_error safeInteger_ne_cycle fun n => ?_
  unfold within
  split <;> simp

namespace ColumnDeclaration

variable {c : ColumnDeclaration}

theorem limit_ne_cycle {absent : Int64} :
    limit field bounds absent x ≠ .error (.referenceCycle place) := by
  cases x with
  | none => simp [limit]
  | some v => exact safeIntegerWithin_ne_cycle

theorem optionalLimit_ne_cycle :
    optionalLimit field bounds x ≠ .error (.referenceCycle place) := by
  cases x with
  | none => simp [optionalLimit]
  | some v => exact bind_ne_error safeIntegerWithin_ne_cycle fun _ => pure_ne_error

theorem requiredLimit_ne_cycle : requiredLimit field x ≠ .error (.referenceCycle place) := by
  cases x with
  | none => simp [requiredLimit]
  | some v => exact safeIntegerWithin_ne_cycle

theorem requiredSize_ne_cycle : c.requiredSize ≠ .error (.referenceCycle place) := by
  unfold requiredSize
  split
  · simp
  · split <;> simp

theorem scalarDefault_ne_cycle : c.scalarDefault ≠ .error (.referenceCycle place) := by
  unfold scalarDefault
  split <;> simp

theorem integerDefault_ne_cycle : integerDefault bounds x ≠ .error (.referenceCycle place) := by
  cases x with
  | none => simp [integerDefault]
  | some v => exact bind_ne_error safeIntegerWithin_ne_cycle fun _ => pure_ne_error

theorem timestampDefault_ne_cycle {unsigned : Bool} :
    timestampDefault unsigned x ≠ .error (.referenceCycle place) := by
  cases x with
  | none => simp [timestampDefault]
  | some v =>
      refine guard_ne_error (by simp) (bind_ne_error safeInteger_ne_cycle fun n => ?_)
      split <;> simp

theorem stringDefault_ne_cycle {least : Option Int64} :
    stringDefault least x ≠ .error (.referenceCycle place) := by
  unfold stringDefault
  split
  · simp
  · split
    · split <;> simp
    · simp

theorem binaryDefault_ne_cycle {maxSize : Int64} :
    binaryDefault maxSize x ≠ .error (.referenceCycle place) := by
  unfold binaryDefault
  split
  · simp
  · split
    · simp
    · split
      · simp
      · split <;> simp

theorem codeDefault_ne_cycle {domain : CodeDomain} :
    codeDefault domain x ≠ .error (.referenceCycle place) := by
  cases x with
  | none => simp [codeDefault]
  | some v =>
      refine bind_ne_error safeInteger_ne_cycle fun n => ?_
      split <;> simp

theorem codeValues_ne_cycle {before : List CodeValue} {ds : List CodeDeclaration} :
    codeValues before ds ≠ .error (.referenceCycle place) := by
  induction ds generalizing before with
  | nil => simp [codeValues]
  | cons d ds ih =>
      have hvalue : codeValue before d ≠ .error (.referenceCycle place) :=
        bind_ne_error safeIntegerWithin_ne_cycle fun _ => guard_ne_error (by simp) <|
          guard_ne_error (by simp) <| guard_ne_error (by simp) pure_ne_error
      exact bind_ne_error hvalue fun _ => ih

theorem rule_ne_cycle (kind : ColumnKind) (c : ColumnDeclaration) :
    rule kind c ≠ .error (.referenceCycle place) := by
  cases kind with
  | integer =>
      exact bind_ne_error requiredSize_ne_cycle fun _ => bind_ne_error limit_ne_cycle fun _ =>
        bind_ne_error limit_ne_cycle fun _ => guard_ne_error (by simp) <|
        bind_ne_error scalarDefault_ne_cycle fun _ => guard_ne_error (by simp) <|
        bind_ne_error integerDefault_ne_cycle fun _ => pure_ne_error
  | serial =>
      exact bind_ne_error requiredSize_ne_cycle fun _ => guard_ne_error (by simp) <|
        bind_ne_error scalarDefault_ne_cycle fun _ => guard_ne_error (by simp) <|
        guard_ne_error (by simp) pure_ne_error
  | timestamp =>
      exact bind_ne_error scalarDefault_ne_cycle fun _ =>
        bind_ne_error timestampDefault_ne_cycle fun _ => pure_ne_error
  | string =>
      exact bind_ne_error requiredLimit_ne_cycle fun _ => bind_ne_error optionalLimit_ne_cycle fun _ =>
        bind_ne_error scalarDefault_ne_cycle fun _ =>
        bind_ne_error stringDefault_ne_cycle fun _ => pure_ne_error
  | binary =>
      exact bind_ne_error requiredLimit_ne_cycle fun _ => bind_ne_error limit_ne_cycle fun _ =>
        bind_ne_error scalarDefault_ne_cycle fun _ =>
        bind_ne_error binaryDefault_ne_cycle fun _ => pure_ne_error
  | boolean =>
      exact bind_ne_error scalarDefault_ne_cycle fun _ =>
        bind_ne_error integerDefault_ne_cycle fun _ => pure_ne_error
  | code =>
      exact guard_ne_error (by simp) <| bind_ne_error codeValues_ne_cycle fun _ =>
        bind_ne_error scalarDefault_ne_cycle fun _ =>
        bind_ne_error codeDefault_ne_cycle fun _ => pure_ne_error
  | foreignKey => simp [rule]

theorem validate_ne_cycle : c.validate ≠ .error (.referenceCycle place) := by
  refine bind_ne_error ?_ fun kind => rule_ne_cycle kind c
  unfold knownKind
  split <;> simp

theorem deleteAction_ne_cycle : c.deleteAction ≠ .error (.referenceCycle place) := by
  unfold deleteAction
  split
  · simp
  · split
    · simp
    · split <;> simp

theorem refer_ne_cycle {home : DatabaseDeclaration} {path : String} {t : Target}
    {resolved : Column} : c.refer home path t resolved ≠ .error (.referenceCycle place) := by
  refine guard_ne_error (by simp) ?_
  split
  · simp
  · exact bind_ne_error deleteAction_ne_cycle fun _ => bind_ne_error scalarDefault_ne_cycle fun _ =>
      bind_ne_error integerDefault_ne_cycle fun _ => pure_ne_error

end ColumnDeclaration

theorem findTarget_ne_cycle {databases : List DatabaseDeclaration} {home : DatabaseDeclaration}
    {path : String} : findTarget databases home path ≠ .error (.referenceCycle place) := by
  have hfind : ∀ (database : DatabaseDeclaration) (table column : String),
      Target.find database table column ≠ .error (.referenceCycle place) := by
    intro database table column
    unfold Target.find
    split
    · simp
    · split <;> simp
  unfold findTarget
  split
  · exact hfind _ _ _
  · refine bind_ne_error ?_ fun database => hfind database _ _
    unfold findDatabase
    split
    · simp
    · split <;> simp
  · simp

end

namespace ForeignKey

variable {databases : List DatabaseDeclaration} {unvisited : List Location}
  {home : DatabaseDeclaration} {c : ColumnDeclaration} {t : Target} {r : Except Failure Column}

/-! ## Where cycles are found -/

/-- A search that fails because it comes back to a target. -/
def FindsCycle (r : Except Failure Column) : Prop :=
  ∃ e place, r = .error e ∧ e.subject = .referenceCycle place

theorem not_findsCycle_unplaced {x : Except Fault Column}
    (h : ∀ place, x ≠ .error (.referenceCycle place)) : ¬FindsCycle (Failure.unplaced x) := by
  rintro ⟨e, place, he, hcycle⟩
  obtain ⟨f, hf, rfl⟩ := Failure.unplaced_eq_error.mp he
  exact h place (hf.trans (congrArg _ hcycle))

/-- A search finds a cycle at once, or below the target that it enters. -/
theorem findsCycle_resolveFrom_iff {path : String} (hpath : c.path = some path)
    (ht : findTarget databases home path = .ok t) :
    FindsCycle (resolveFrom databases unvisited home c) ↔
      t.location ∉ unvisited ∨ FindsCycle (enter databases unvisited t) := by
  rw [resolveFrom_of_target hpath ht]
  by_cases hentered : t.location ∈ unvisited
  · rw [if_pos hentered]
    cases enter databases unvisited t with
    | ok resolved =>
        have hrefer := not_findsCycle_unplaced (x := c.refer home path t resolved) fun _ =>
          ColumnDeclaration.refer_ne_cycle
        constructor
        · exact fun h => absurd h hrefer
        · rintro (h | ⟨_, _, h, -⟩)
          · exact absurd hentered h
          · cases h
    | error e =>
        constructor
        · rintro ⟨_, place, h, hcycle⟩
          cases h
          exact .inr ⟨e, place, rfl, by simpa using hcycle⟩
        · rintro (h | ⟨_, place, h, hcycle⟩)
          · exact absurd hentered h
          · cases h
            exact ⟨_, place, rfl, by simpa using hcycle⟩
  · rw [if_neg hentered]
    exact ⟨fun _ => .inl hentered, fun _ => ⟨_, _, rfl, rfl⟩⟩

theorem exists_target_of_findsCycle (h : FindsCycle (resolveFrom databases unvisited home c)) :
    ∃ path t, c.path = some path ∧ findTarget databases home path = .ok t := by
  obtain ⟨e, place, he, hcycle⟩ := h
  cases hpath : c.path with
  | none =>
      rw [resolveFrom, hpath] at he
      cases he
      cases hcycle
  | some path =>
      cases ht : findTarget databases home path with
      | ok t => exact ⟨path, t, rfl, ht⟩
      | error f =>
          simp only [resolveFrom, hpath, ht, Except.error.injEq] at he
          subst he
          exact absurd (ht.trans (congrArg _ hcycle)) findTarget_ne_cycle

theorem enter_of_isReference (hkind : t.column.isReference) : enter databases unvisited t =
    resolveFrom databases (strike t.location unvisited) t.database t.column :=
  if_pos hkind

theorem not_findsCycle_enter_declared (hkind : ¬t.column.isReference) :
    ¬FindsCycle (enter databases unvisited t) := by
  rw [enter, if_neg hkind]
  exact not_findsCycle_unplaced fun _ => ColumnDeclaration.validate_ne_cycle

/-! ## References without an end -/

/-- The targets that paths lead to, one after the other, have no end. -/
def Endless (databases : List DatabaseDeclaration) (home : DatabaseDeclaration)
    (c : ColumnDeclaration) : Prop :=
  ∃ targets : Nat → Target,
    (∃ path, c.path = some path ∧ findTarget databases home path = .ok (targets 0)) ∧
      ∀ n, Hops databases (targets n) (targets (n + 1))

/-- Endless references come back to a target, as there are only so many places. -/
theorem findsCycle_of_endless (h : Endless databases home c) :
    FindsCycle (resolveFrom databases unvisited home c) := by
  induction hlength : unvisited.length using Nat.strongRecOn generalizing unvisited home c with
  | _ length ih =>
      obtain ⟨targets, ⟨path, hpath, ht⟩, hhops⟩ := h
      rw [findsCycle_resolveFrom_iff hpath ht, or_iff_not_imp_left, not_not]
      intro hentered
      obtain ⟨hkind, path', hpath', hnext⟩ := hhops 0
      rw [enter_of_isReference hkind]
      exact ih _ (hlength ▸ length_strike_lt hentered)
        ⟨fun n => targets (n + 1), ⟨path', hpath', hnext⟩, fun n => hhops (n + 1)⟩ rfl

/-- A target from which references come to an end. -/
def Ends (databases : List DatabaseDeclaration) (t : Target) : Prop :=
  Acc (fun u t => Hops databases t u) t

theorem not_ends_iff : ¬Ends databases t ↔
    ∃ targets : Nat → Target, targets 0 = t ∧ ∀ n, Hops databases (targets n) (targets (n + 1)) :=
  not_acc_iff_exists_descending_chain

theorem Ends.not_cycle (h : Ends databases t) : ¬Relation.TransGen (Hops databases) t t := by
  induction h with
  | intro t _ ih =>
      intro hcycle
      obtain ⟨u, hhops, hback⟩ := Relation.TransGen.head'_iff.mp hcycle
      exact ih u hhops (Relation.TransGen.tail' hback hhops)

/-- Where references come to an end, the search never comes back to the targets on its trail. -/
theorem Ends.not_findsCycle (h : Ends databases t) (hnames : (databases.map (·.name)).Nodup)
    (ht : t.Declared databases) (htrail : Trail databases unvisited t) :
    ¬FindsCycle (enter databases unvisited t) := by
  induction h generalizing unvisited with
  | intro t hends ih =>
      by_cases hkind : t.column.isReference
      · rw [enter_of_isReference hkind]
        intro hfinds
        obtain ⟨path, u, hpath, hu⟩ := exists_target_of_findsCycle hfinds
        have hhops : Hops databases t u := ⟨hkind, path, hpath, hu⟩
        have hdeclared := findTarget_declared ht.database hu
        rcases (findsCycle_resolveFrom_iff hpath hu).mp hfinds with hvisited | hbelow
        · have hback := htrail.of_notMem_strike hnames ht hdeclared hvisited
          exact Ends.not_cycle (.intro t hends) (Relation.TransGen.head' hhops hback)
        · exact ih u hhops hdeclared (htrail.next hnames ht hhops) hbelow
      · exact not_findsCycle_enter_declared hkind

theorem endless_of_findsCycle (hnames : (databases.map (·.name)).Nodup) (hhome : home ∈ databases)
    (h : FindsCycle (resolve databases home c)) : Endless databases home c := by
  obtain ⟨path, t, hpath, ht⟩ := exists_target_of_findsCycle h
  have hdeclared := findTarget_declared hhome ht
  rcases (findsCycle_resolveFrom_iff hpath ht).mp h with hvisited | hbelow
  · exact absurd (mem_places_cons hdeclared home) hvisited
  · have htrail : Trail databases (places (home :: databases)) t :=
      fun u hu hvisited => absurd (mem_places_cons hu home) hvisited
    have hends : ¬Ends databases t := fun hends => hends.not_findsCycle hnames hdeclared htrail hbelow
    obtain ⟨targets, rfl, hhops⟩ := not_ends_iff.mp hends
    exact ⟨targets, ⟨path, hpath, ht⟩, hhops⟩

/-- A search enters no declared column twice, so that it ends within a depth of one more than there are
columns; and where databases have different names, it finds a cycle exactly where references are endless. -/
theorem resolve_finds_cycles (c : ColumnDeclaration) (hhome : home ∈ databases) :
    (∃ entered, search databases ((places databases).length + 1) [] home c =
        some (entered, resolve databases home c) ∧
      (∀ t ∈ entered, t.Declared databases) ∧ (entered.map Target.location).Nodup) ∧
    ((databases.map (·.name)).Nodup →
      (FindsCycle (resolve databases home c) ↔ Endless databases home c)) := by
  constructor
  · obtain ⟨entered, hsearch, henters⟩ :=
      search_eq_resolveFrom (c := c) hhome (tracks_places home) (Nat.lt_succ_self _)
    refine ⟨entered, hsearch, fun t ht => (henters.pathed t ht).toDeclared, ?_⟩
    have hnodup := henters.nodup
    rw [← Function.comp_def, ← List.map_map] at hnodup
    exact hnodup.of_map Location.text
  · exact fun hnames => ⟨endless_of_findsCycle hnames hhome, findsCycle_of_endless⟩

/-! ## A cycle entered from outside -/

namespace Lasso

def first : ColumnDeclaration where
  name := "first"
  kind := "FK"
  path := some "users.next"

def next : ColumnDeclaration where
  name := "next"
  kind := "FK"
  path := some "users.first"

/-- A database with a dot in its name. -/
def main : DatabaseDeclaration where
  name := "users.main"
  kind := "fixed"
  tables := [{ name := "users", columns := [first, next] }]

/-- A reference of another database to the cycle, with the name of a column in it. -/
def outer : ColumnDeclaration where
  name := "first"
  kind := "FK"
  path := some "fixed.users.first"

def shop : DatabaseDeclaration where
  name := "users"
  kind := "instance"
  tables := [{ name := "users", columns := [outer] }]

theorem resolve_finds_cycles_lasso : shop ∈ [shop, main] ∧ ([shop, main].map (·.name)).Nodup ∧
    (∃ entered, search [shop, main] 4 [] shop outer = some (entered, resolve [shop, main] shop outer) ∧
      (∀ t ∈ entered, t.Declared [shop, main]) ∧ (entered.map Target.location).Nodup) ∧
    FindsCycle (resolve [shop, main] shop outer) ∧ Endless [shop, main] shop outer := by
  have hhome : shop ∈ [shop, main] := .head _
  have hnames : ([shop, main].map (·.name)).Nodup := by decide
  have hcycle : FindsCycle (resolve [shop, main] shop outer) := ⟨_, _, by cbv, rfl⟩
  obtain ⟨hsearch, hiff⟩ := resolve_finds_cycles outer hhome
  exact ⟨hhome, hnames, hsearch, hcycle, (hiff hnames).mp hcycle⟩

end Lasso

end ForeignKey

end SchemaCompiler
