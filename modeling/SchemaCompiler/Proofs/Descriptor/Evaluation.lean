import SchemaCompiler.Proofs.Descriptor.Object

/-! # The module of a descriptor builds its objects

A column is described once its object is made, a table once it is frozen behind its columns, a database
once its tables are declared. -/

namespace SchemaCompiler

namespace Descriptor

open EsModule EsModule.State

variable {s s' : State}

/-! ## Fields -/

theorem datum_toLiteral {x : Scalar} (h : x.IsExact) : x.toLiteral.datum = .ok x.datum := by
  cases x with
  | bool b => rfl
  | int n => exact if_pos h
  | string t => rfl

theorem literals_eq {entries : List (String × Scalar)} (h : ∀ entry ∈ entries, entry.2.IsExact) :
    literals (entries.map fun (key, x) => (.quoted key, x.toLiteral)) =
      .ok (entries.map fun (key, x) => (key, x.datum)) := by
  rw [literals, mapM_eq_ok, List.forall₂_map_left_iff, List.forall₂_map_right_iff,
    List.forall₂_same]
  intro entry hentry
  obtain ⟨key, x⟩ := entry
  simp only [Key.string, datum_toLiteral (h _ hentry), bind, Except.bind, pure, Except.pure]

theorem items_eq {items : List Scalar} (h : ∀ x ∈ items, x.IsExact) :
    (items.map Scalar.toLiteral).mapM Literal.datum = .ok (items.map Scalar.datum) := by
  rw [mapM_eq_ok, List.forall₂_map_left_iff, List.forall₂_map_right_iff, List.forall₂_same]
  exact fun x hx => datum_toLiteral (h x hx)

/-- What was allocated lies at the end. -/
theorem getElem?_allocate (s : State) (o : Object) : (s.allocate o).2.heap[s.heap.length]? = some o := by
  simp [allocate]

theorem value_field {constant : String} {table : Address}
    (htable : s.constants.lookup constant = some table) {f : Field} (hf : f.IsLegal) :
    ∃ datum s', s.value (f.toValue constant) = .ok (datum, s') ∧
      f.Denotes s'.heap table datum := by
  cases f with
  | scalar x =>
      refine ⟨x.datum, s, ?_, .scalar⟩
      rw [Field.toValue, value, datum_toLiteral hf]
      rfl
  | table =>
      refine ⟨.object table, s, ?_, .table⟩
      rw [Field.toValue, value, constant_eq_ok.mpr htable]
      rfl
  | lookup entries =>
      obtain ⟨hdistinct, hprototype, hexact⟩ := hf
      have hkeys : (entries.map fun (key, x) => (key, x.datum)).map Prod.fst =
          entries.map Prod.fst := by
        simp
      have hobject : literalObject true (entries.map fun (key, x) => (key, x.datum)) = .ok _ :=
        literalObject_of_distinct (hkeys ▸ hdistinct) (hkeys ▸ hprototype)
      refine ⟨_, _, ?_, .lookup ⟨getElem?_allocate s _, hkeys ▸ hdistinct⟩⟩
      rw [Field.toValue, value, literals_eq hexact]
      simp only [bind, Except.bind, hobject]
      rfl
  | list items =>
      refine ⟨_, _, ?_, .list (getElem?_allocate s _)⟩
      rw [Field.toValue, value, items_eq hf]
      rfl

/-! ## Objects -/

theorem members_header {objectType name : String} {ms : List (Key × Value)} {data : Properties}
    (h : s.members ms = .ok (data, s')) : s.members (header objectType name ++ ms) =
      .ok (headerProperties objectType name ++ data, s') :=
  members_cons_eq_ok.mpr ⟨_, s, _, rfl, members_cons_eq_ok.mpr ⟨_, s, _, rfl, h, rfl⟩, rfl⟩

theorem keys_of_represents {α : Type} {R : α → Datum → Prop} {items : List (String × α)}
    {properties : Properties} (h : Represents R items properties) :
    properties.map Prod.fst = items.map Prod.fst :=
  (map_eq_map_of_forall₂ h fun _ _ hitem => hitem.1.symm).symm

theorem LegalKeys.header (objectType name : String) {properties : Properties}
    (h : LegalKeys (properties.map Prod.fst)) :
    ((headerProperties objectType name ++ properties).map Prod.fst).Nodup ∧
      prototypeKey ∉ (headerProperties objectType name ++ properties).map Prod.fst := by
  have htype : prototypeKey ≠ "_objectType" := by decide
  have hname : prototypeKey ≠ "_name" := by decide
  exact ⟨h.distinct, List.not_mem_cons_of_ne_of_not_mem htype
    (List.not_mem_cons_of_ne_of_not_mem hname h.prototype)⟩

/-- A literal with a type, a name and legal keys makes the object of its members. -/
theorem object_eq {objectType name : String} {frozen : Bool} {ms : List (Key × Value)}
    {data : Properties} (hmembers : s.members ms = .ok (data, s'))
    (hkeys : LegalKeys (data.map Prod.fst)) :
    s.object frozen (header objectType name ++ ms) =
      .ok (s'.allocate (.record (headerProperties objectType name ++ data) none frozen)) := by
  obtain ⟨hdistinct, hprototype⟩ := hkeys.header objectType name
  exact object_eq_ok.mpr ⟨_, s', _, members_header hmembers,
    literalObject_of_distinct hdistinct hprototype, rfl⟩

/-- If the literal is frozen, its object is described at once. -/
theorem object_describes {α : Type} (objectType name : String) {R : α → Datum → Prop}
    {items : List (String × α)} {ms : List (Key × Value)} {data : Properties}
    (hmembers : s.members ms = .ok (data, s')) (hdata : Represents R items data)
    (hkeys : LegalKeys (items.map Prod.fst)) :
    ∃ a s'', s.object true (header objectType name ++ ms) = .ok (a, s'') ∧ s'.Grows s'' ∧
      Describes s''.heap objectType name R items a := by
  rw [← keys_of_represents hdata] at hkeys
  exact ⟨_, _, object_eq hmembers hkeys, grows_allocate s' _, data,
    ⟨getElem?_allocate s' _, (hkeys.header objectType name).1⟩, hdata⟩

/-! ## Columns -/

theorem members_fields {constant : String} {table : Address} {fields : List (String × Field)}
    (htable : s.constants.lookup constant = some table)
    (hfields : ∀ field ∈ fields, field.2.IsLegal) :
    ∃ data s', s.members (fields.map fun (key, f) => (.name key, f.toValue constant)) =
      .ok (data, s') ∧ Represents (Field.Denotes s'.heap table) fields data := by
  induction fields generalizing s with
  | nil => exact ⟨[], s, rfl, .nil⟩
  | cons field fields ih =>
      obtain ⟨key, f⟩ := field
      obtain ⟨datum, s₁, hvalue, hdenotes⟩ := value_field htable (hfields _ List.mem_cons_self)
      have htable₁ : s₁.constants.lookup constant = some table := by
        rw [(value_grows hvalue).constants, htable]
      obtain ⟨data, s₂, hmembers, hrest⟩ :=
        ih htable₁ fun field hfield => hfields field (List.mem_cons_of_mem _ hfield)
      have hextends := Heap.extends_of_isPrefix (members_grows hmembers).heap
      exact ⟨_, s₂, members_cons_eq_ok.mpr ⟨datum, s₁, data, hvalue, hmembers, rfl⟩,
        .cons ⟨rfl, hdenotes.extends hextends⟩ hrest⟩

theorem object_column {constant : String} {table : Address}
    (htable : s.constants.lookup constant = some table) {c : ColumnRecord} (hc : c.IsLegal) :
    ∃ a s', s.object true (c.members constant) = .ok (a, s') ∧ c.IsAt s'.heap table a := by
  obtain ⟨data, s₁, hmembers, hdata⟩ := members_fields htable hc.fields
  obtain ⟨a, s₂, hobject, hgrows, hdescribes⟩ := object_describes "column" c.name hmembers hdata hc.keys
  have hextends := Heap.extends_of_isPrefix hgrows.heap
  exact ⟨a, s₂, hobject, describes_extends (.refl _) (fun _ _ => Field.Denotes.extends hextends)
    hdescribes⟩

/-- A column becomes the next property of its table's object. -/
theorem step_column {constant : String} {table : Address} {properties : Properties}
    (htable : s.constants.lookup constant = some table)
    (hobject : s.heap[table]? = some (.record properties none false)) {c : ColumnRecord}
    (hc : c.IsLegal) (hfresh : c.name ∉ properties.map Prod.fst)
    (hprototype : c.name ≠ prototypeKey) :
    ∃ a s', s.step (.attachFrozen constant c.name (c.members constant)) = .ok s' ∧
      s'.heap[table]? = some (.record (properties ++ [(c.name, .object a)]) none false) ∧
      c.IsAt s'.heap table a := by
  obtain ⟨a, s₁, hcolumn, hat⟩ := object_column htable hc
  have hgrows := object_grows hcolumn
  have hlt : table < s.heap.length := (List.getElem?_eq_some_iff.mp hobject).1
  have hobject₁ : s₁.heap[table]? = some (.record properties none false) := by
    obtain ⟨more, hmore⟩ := hgrows.heap
    rw [← hmore, List.getElem?_append_left hlt, hobject]
  have hattach : s₁.attach constant c.name (.object a) = .ok _ :=
    attach_eq_ok.mpr ⟨table, properties, by rw [hgrows.constants, htable], hobject₁, rfl⟩
  refine ⟨a, _, ?_, ?_, hat.extends (attach_continues hattach).heap⟩
  · rw [step, hcolumn]
    exact hattach
  · rw [assignedObject_eq hfresh hprototype]
    exact List.getElem?_set_self (List.getElem?_eq_some_iff.mp hobject₁).1

theorem steps_columns {constant : String} {table : Address} {properties : Properties}
    {columns : List ColumnRecord} (htable : s.constants.lookup constant = some table)
    (hobject : s.heap[table]? = some (.record properties none false))
    (hlegal : ∀ c ∈ columns, c.IsLegal)
    (hdistinct : (properties.map Prod.fst ++ columns.map (·.name)).Nodup)
    (hprototype : prototypeKey ∉ columns.map (·.name)) :
    ∃ s' data, s.steps (columns.map fun c => .attachFrozen constant c.name (c.members constant)) =
      .ok s' ∧ s'.heap[table]? = some (.record (properties ++ data) none false) ∧
      Represents (fun c => Datum.PointsAt (c.IsAt s'.heap table)) (columns.map fun c => (c.name, c))
        data := by
  induction columns generalizing s properties with
  | nil => exact ⟨s, [], rfl, by rwa [List.append_nil], .nil⟩
  | cons c columns ih =>
      rw [List.map_cons] at hdistinct hprototype
      rw [List.mem_cons, not_or] at hprototype
      have hfresh : c.name ∉ properties.map Prod.fst := by
        intro hmem
        exact (List.nodup_append.mp hdistinct).2.2 _ hmem _ List.mem_cons_self rfl
      obtain ⟨a, s₁, hstep, hobject₁, hat⟩ :=
        step_column htable hobject (hlegal c List.mem_cons_self) hfresh (Ne.symm hprototype.1)
      have htable₁ := (step_continues hstep).constants constant table htable
      have hdistinct₁ : ((properties ++ [(c.name, Datum.object a)]).map Prod.fst ++
          columns.map (·.name)).Nodup := by
        simpa using hdistinct
      obtain ⟨s₂, data, hsteps, hobject₂, hdata⟩ := ih htable₁ hobject₁
        (fun c hc => hlegal c (List.mem_cons_of_mem _ hc)) hdistinct₁ hprototype.2
      refine ⟨s₂, (c.name, .object a) :: data, ?_, ?_, .cons ⟨rfl, .object ?_⟩ hdata⟩
      · rw [List.map_cons, steps, hstep]
        exact hsteps
      · rw [hobject₂, List.append_assoc, List.singleton_append]
      · exact hat.extends (steps_continues hsteps).heap

/-! ## Tables -/

theorem declared_attaching (constant : String) (columns : List ColumnRecord) :
    (columns.map fun c => Statement.attachFrozen constant c.name (c.members constant)).flatMap
      Statement.declared = [] := by
  simp [Statement.declared]

theorem TableRecord.declared (constant : String) (t : TableRecord) :
    (t.statements constant).flatMap Statement.declared = [constant] := by
  rw [TableRecord.statements, List.flatMap_append, List.flatMap_cons, declared_attaching]
  rfl

/-- A table starts as an open object with its header. -/
theorem step_declare_header (objectType name : String) {constant : String} (hfresh : constant ∉ s.names) :
    ∃ a s', s.step (.declare constant (header objectType name)) = .ok s' ∧
      s'.constants.lookup constant = some a ∧
      s'.heap[a]? = some (.record (headerProperties objectType name) none false) := by
  have hobject : s.object false (header objectType name ++ []) =
      .ok (s.allocate (.record (headerProperties objectType name ++ []) none false)) :=
    object_eq rfl ⟨by simp, by decide, by decide⟩
  rw [List.append_nil, List.append_nil] at hobject
  exact ⟨_, _, step_declare hobject hfresh, List.lookup_cons_self, getElem?_allocate s _⟩

/-- The object of a table is declared, filled and frozen. -/
theorem steps_table {constant : String} {t : TableRecord} (ht : t.IsLegal)
    (hfresh : s.Fresh (t.statements constant)) :
    ∃ s', s.steps (t.statements constant) = .ok s' ∧ s'.Holds constant (t.IsAt s'.heap) := by
  rw [Fresh, TableRecord.declared, List.singleton_append, List.nodup_cons] at hfresh
  obtain ⟨a, s₁, hdeclare, ha, hobject⟩ :=
    step_declare_header "table" t.name hfresh.1
  obtain ⟨s₂, data, hcolumns, hobject₂, hdata⟩ :=
    steps_columns ha hobject ht.columns ht.keys.distinct ht.keys.prototype
  have ha₂ := (steps_continues hcolumns).constants constant a ha
  have hfreeze : s₂.step (.freeze constant) = .ok _ := freeze_eq_ok ha₂ hobject₂
  have hextends := (step_continues hfreeze).heap
  have hlt : a < s₂.heap.length := (List.getElem?_eq_some_iff.mp hobject₂).1
  have hkeys : data.map Prod.fst = t.columns.map (·.name) := by
    rw [keys_of_represents hdata, List.map_map]
    rfl
  have hrest : s₁.steps _ = .ok _ := steps_append hcolumns (steps_singleton hfreeze)
  refine ⟨_, Eq.trans ?_ hrest, a, ha₂, data, ⟨List.getElem?_set_self hlt, ?_⟩, ?_⟩
  · rw [TableRecord.statements, List.cons_append, steps, hdeclare]
    rfl
  · rw [List.map_append, hkeys]
    exact ht.keys.distinct
  · exact represents_imp (fun _ _ => pointsAt_imp fun _ => ColumnRecord.IsAt.extends hextends) hdata

theorem steps_tables {cs : List (String × TableRecord)} (hlegal : ∀ p ∈ cs, p.2.IsLegal)
    (hfresh : s.Fresh (cs.flatMap fun (constant, t) => t.statements constant)) :
    ∃ s', s.steps (cs.flatMap fun (constant, t) => t.statements constant) = .ok s' ∧
      ∀ p ∈ cs, s'.Holds p.1 (p.2.IsAt s'.heap) := by
  induction cs generalizing s with
  | nil => exact ⟨s, rfl, by simp⟩
  | cons p cs ih =>
      obtain ⟨constant, t⟩ := p
      rw [List.flatMap_cons] at hfresh
      obtain ⟨s₁, htable, hholds⟩ := steps_table (hlegal _ List.mem_cons_self) hfresh.before
      obtain ⟨s₂, htables, hrest⟩ :=
        ih (fun p hp => hlegal p (List.mem_cons_of_mem _ hp)) (hfresh.after htable)
      have hcontinues := steps_continues htables
      refine ⟨s₂, ?_, ?_⟩
      · rw [List.flatMap_cons]
        exact steps_append htable htables
      · intro p hp
        rcases List.mem_cons.mp hp with rfl | hp
        · exact hholds.continues hcontinues fun _ => TableRecord.IsAt.extends hcontinues.heap
        · exact hrest p hp

/-! ## Databases -/

/-- Members that are constants leave the heap alone. -/
theorem members_constants {α β : Type} (key : α → String) (item : α → β)
    {constant : α → String} {P : β → Address → Prop} {xs : List α}
    (h : ∀ x ∈ xs, s.Holds (constant x) (P (item x))) :
    ∃ data, s.members (xs.map fun x => (.name (key x), .constant (constant x))) = .ok (data, s) ∧
      Represents (fun y => Datum.PointsAt (P y)) (xs.map fun x => (key x, item x)) data := by
  induction xs with
  | nil => exact ⟨[], rfl, .nil⟩
  | cons x xs ih =>
      obtain ⟨a, ha, hP⟩ := h x List.mem_cons_self
      obtain ⟨data, hmembers, hdata⟩ := ih fun x hx => h x (List.mem_cons_of_mem _ hx)
      have hvalue : s.value (.constant (constant x)) = .ok (.object a, s) := by
        rw [value, constant_eq_ok.mpr ha]
        rfl
      exact ⟨_, members_cons_eq_ok.mpr ⟨_, s, data, hvalue, hmembers, rfl⟩,
        .cons ⟨rfl, .object hP⟩ hdata⟩

theorem DatabaseRecord.map_constants {β : Type} (f : TableRecord → β) (first : Nat)
    (d : DatabaseRecord) : (d.constants first).map (fun p => f p.2) = d.tables.map f := by
  rw [DatabaseRecord.constants, List.map_map, ← List.zipIdx_map_fst first d.tables, List.map_map]
  simp [Function.comp_def]

theorem DatabaseRecord.mem_tables {first : Nat} {d : DatabaseRecord} {p : String × TableRecord}
    (h : p ∈ d.constants first) : p.2 ∈ d.tables := by
  have hmem : p.2 ∈ (d.constants first).map (fun p => id p.2) := List.mem_map_of_mem h
  rwa [d.map_constants, List.map_id] at hmem

theorem steps_database {first : Nat} {d : DatabaseRecord} (hd : d.IsLegal)
    (hfresh : s.Fresh (d.statements first)) :
    ∃ s', s.steps (d.statements first) = .ok s' ∧ s'.Holds d.namespaceName (d.IsAt s'.heap) := by
  obtain ⟨s₁, htables, hholds⟩ := steps_tables
    (fun p hp => hd.tables p.2 (DatabaseRecord.mem_tables hp)) hfresh.before
  have hdeclared : d.namespaceName ∉ s₁.names :=
    (hfresh.after htables).notMem List.mem_cons_self
  obtain ⟨data, hmembers, hdata⟩ := members_constants
    (fun p : String × TableRecord => p.2.name) Prod.snd hholds
  have hitems : (d.constants first).map (fun p => (p.2.name, p.2)) = d.items :=
    d.map_constants (fun t => (t.name, t)) first
  rw [hitems] at hdata
  have hkeys : LegalKeys (d.items.map Prod.fst) := by
    rw [DatabaseRecord.items, List.map_map]
    exact hd.keys
  obtain ⟨a, s₂, hobject, hgrows, hdescribes⟩ := object_describes "database" d.name
    hmembers hdata hkeys
  have hextends := Heap.extends_of_isPrefix hgrows.heap
  refine ⟨_, steps_append htables (steps_singleton (step_declareFrozen hobject hdeclared)), a,
    List.lookup_cons_self, ?_⟩
  exact describes_extends (.refl _) (fun _ _ => pointsAt_imp fun _ => TableRecord.IsAt.extends hextends)
    hdescribes

theorem steps_databases {first : Nat} {ds : List DatabaseRecord} (hlegal : ∀ d ∈ ds, d.IsLegal)
    (hfresh : s.Fresh (databaseStatements first ds)) :
    ∃ s', s.steps (databaseStatements first ds) = .ok s' ∧
      ∀ d ∈ ds, s'.Holds d.namespaceName (d.IsAt s'.heap) := by
  induction ds generalizing first s with
  | nil => exact ⟨s, rfl, by simp⟩
  | cons d ds ih =>
      rw [databaseStatements] at hfresh
      obtain ⟨s₁, hdatabase, hholds⟩ := steps_database (hlegal d List.mem_cons_self) hfresh.before
      obtain ⟨s₂, hdatabases, hrest⟩ :=
        ih (fun d hd => hlegal d (List.mem_cons_of_mem _ hd)) (hfresh.after hdatabase)
      have hcontinues := steps_continues hdatabases
      refine ⟨s₂, ?_, ?_⟩
      · rw [databaseStatements]
        exact steps_append hdatabase hdatabases
      · intro r hr
        rcases List.mem_cons.mp hr with rfl | hr
        · exact hholds.continues hcontinues fun _ => DatabaseRecord.IsAt.extends hcontinues.heap
        · exact hrest r hr

end Descriptor

end SchemaCompiler
