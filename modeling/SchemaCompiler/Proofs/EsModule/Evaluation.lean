import SchemaCompiler.EsModule.Evaluation
import SchemaCompiler.Proofs.Outcome

/-! # What a module leaves behind while it runs

Values only add objects. A statement may change an object, but no frozen one, and it takes no constant
away. -/

namespace SchemaCompiler

namespace EsModule

/-! ## Literals with distinct keys -/

theorem assign_of_notMem {key : String} {value : Datum} {properties : Properties}
    (h : key ∉ properties.map Prod.fst) :
    assign key value properties = properties ++ [(key, value)] := by
  induction properties with
  | nil => rfl
  | cons property properties ih =>
      rw [List.map_cons, List.mem_cons, not_or] at h
      rw [assign, if_neg (Ne.symm h.1), ih h.2, List.cons_append]

theorem define_of_distinct {properties members : Properties} {prototype : Option Address}
    (hdistinct : (properties.map Prod.fst ++ members.map Prod.fst).Nodup)
    (hprototype : prototypeKey ∉ members.map Prod.fst) :
    define properties prototype members = (properties ++ members, prototype) := by
  induction members generalizing properties with
  | nil => rw [define, List.append_nil]
  | cons member members ih =>
      obtain ⟨key, value⟩ := member
      rw [List.map_cons, List.mem_cons, not_or] at hprototype
      rw [List.map_cons] at hdistinct
      have hfresh : key ∉ properties.map Prod.fst := by
        intro hmem
        exact (List.nodup_append.mp hdistinct).2.2 key hmem key List.mem_cons_self rfl
      have hrest : ((properties ++ [(key, value)]).map Prod.fst ++ members.map Prod.fst).Nodup := by
        simpa using hdistinct
      rw [define, if_neg (Ne.symm hprototype.1), assign_of_notMem hfresh, ih hrest hprototype.2,
        List.append_assoc, List.singleton_append]

/-- A literal without the key of the prototype has its members as properties. -/
theorem literalObject_of_distinct {frozen : Bool} {members : Properties}
    (hdistinct : (members.map Prod.fst).Nodup) (hprototype : prototypeKey ∉ members.map Prod.fst) :
    literalObject frozen members = .ok (.record members none frozen) := by
  have hnone : members.countP (·.1 = prototypeKey) = 0 := by
    rw [List.countP_eq_zero]
    intro member hmem hkey
    exact hprototype (of_decide_eq_true hkey ▸ List.mem_map_of_mem hmem)
  have hdefine : define [] none members = (members, none) := define_of_distinct hdistinct hprototype
  rw [literalObject, hnone, if_neg (by decide), hdefine]

/-! ## Frozen objects -/

def Object.frozen : Object → Bool
  | .record _ _ frozen => frozen
  | .array _ frozen => frozen

/-- Every frozen object of the first heap lies in the second one as it was. -/
def Heap.Extends (heap heap' : Heap) : Prop :=
  ∀ (a : Address) (o : Object), heap[a]? = some o → o.frozen → heap'[a]? = some o

namespace Heap

variable {heap heap' heap'' : Heap}

theorem Extends.refl (heap : Heap) : heap.Extends heap := fun _ _ h _ => h

theorem Extends.trans (h : heap.Extends heap') (h' : heap'.Extends heap'') :
    heap.Extends heap'' :=
  fun a o ho hfrozen => h' a o (h a o ho hfrozen) hfrozen

theorem extends_of_isPrefix (h : heap <+: heap') : heap.Extends heap' := by
  intro a o ho _
  obtain ⟨more, rfl⟩ := h
  have hlt : a < heap.length := (List.getElem?_eq_some_iff.mp ho).1
  rw [List.getElem?_append_left hlt, ho]

/-- An object may be replaced unless it is frozen. -/
theorem extends_set {a : Address} {o o' : Object} (h : heap[a]? = some o)
    (hkeep : o.frozen → o' = o) : heap.Extends (heap.set a o') := by
  intro b p hp hfrozen
  by_cases hab : a = b
  · subst hab
    have hsame : o = p := Option.some.inj (h.symm.trans hp)
    have hlt : a < heap.length := (List.getElem?_eq_some_iff.mp hp).1
    rw [← hsame] at hfrozen
    rw [List.getElem?_set_self hlt, hkeep hfrozen, hsame]
  · rw [List.getElem?_set_ne hab, hp]

end Heap

namespace State

variable {s s' s'' : State}

/-! ## Values only add objects -/

/-- Objects were added and nothing else happened. -/
structure Grows (s s' : State) : Prop where
  heap : s.heap <+: s'.heap
  constants : s'.constants = s.constants

theorem Grows.refl (s : State) : s.Grows s := ⟨List.prefix_refl s.heap, rfl⟩

theorem Grows.trans (h : s.Grows s') (h' : s'.Grows s'') : s.Grows s'' :=
  ⟨h.heap.trans h'.heap, h'.constants.trans h.constants⟩

theorem grows_allocate (s : State) (o : Object) : s.Grows (s.allocate o).2 :=
  ⟨List.prefix_append s.heap [o], rfl⟩

theorem value_grows {v : Value} {datum : Datum} (h : s.value v = .ok (datum, s')) : s.Grows s' := by
  cases v with
  | literal l =>
      simp only [value, bind_eq_ok, pure_eq_ok, Prod.mk.injEq] at h
      obtain ⟨_, -, -, rfl⟩ := h
      exact .refl s
  | constant name =>
      simp only [value, bind_eq_ok, pure_eq_ok, Prod.mk.injEq] at h
      obtain ⟨_, -, -, rfl⟩ := h
      exact .refl s
  | frozenObject members =>
      simp only [value, bind_eq_ok, pure_eq_ok, Prod.mk.injEq] at h
      obtain ⟨_, -, o, -, -, rfl⟩ := h
      exact grows_allocate s o
  | frozenArray items =>
      simp only [value, bind_eq_ok, pure_eq_ok, Prod.mk.injEq] at h
      obtain ⟨_, -, -, rfl⟩ := h
      exact grows_allocate s _

theorem members_cons_eq_ok {key : Key} {v : Value} {ms : List (Key × Value)}
    {data : List (String × Datum)} : s.members ((key, v) :: ms) = .ok (data, s'') ↔
      ∃ datum s' rest, s.value v = .ok (datum, s') ∧ s'.members ms = .ok (rest, s'') ∧
        (key.string, datum) :: rest = data := by
  simp only [members, bind_eq_ok, pure_eq_ok, Prod.mk.injEq, Prod.exists]
  constructor
  · rintro ⟨datum, s', hvalue, rest, _, hrest, hdata, rfl⟩
    exact ⟨datum, s', rest, hvalue, hrest, hdata⟩
  · rintro ⟨datum, s', rest, hvalue, hrest, hdata⟩
    exact ⟨datum, s', hvalue, rest, s'', hrest, hdata, rfl⟩

theorem members_grows {ms : List (Key × Value)} {data : List (String × Datum)}
    (h : s.members ms = .ok (data, s')) : s.Grows s' := by
  induction ms generalizing s data with
  | nil =>
      cases h
      exact .refl _
  | cons m ms ih =>
      obtain ⟨key, v⟩ := m
      obtain ⟨_, _, _, hvalue, hrest, -⟩ := members_cons_eq_ok.mp h
      exact (value_grows hvalue).trans (ih hrest)

theorem object_eq_ok {frozen : Bool} {ms : List (Key × Value)} {a : Address} :
    s.object frozen ms = .ok (a, s'') ↔ ∃ data s' o, s.members ms = .ok (data, s') ∧
      literalObject frozen data = .ok o ∧ s'.allocate o = (a, s'') := by
  simp only [object, bind_eq_ok, pure_eq_ok, Prod.exists]
  constructor
  · rintro ⟨data, s', hmembers, o, ho, hallocate⟩
    exact ⟨data, s', o, hmembers, ho, hallocate⟩
  · rintro ⟨data, s', o, hmembers, ho, hallocate⟩
    exact ⟨data, s', hmembers, o, ho, hallocate⟩

theorem object_grows {frozen : Bool} {ms : List (Key × Value)} {a : Address}
    (h : s.object frozen ms = .ok (a, s')) : s.Grows s' := by
  obtain ⟨_, s'', o, hmembers, -, hallocate⟩ := object_eq_ok.mp h
  cases hallocate
  exact (members_grows hmembers).trans (grows_allocate s'' o)

/-! ## Statements keep frozen objects and constants -/

/-- The names of the constants, the last one first. -/
def names (s : State) : List String :=
  s.constants.map Prod.fst

/-- What was frozen or declared stays as it was, and these names were declared. -/
structure Continues (declared : List String) (s s' : State) : Prop where
  heap : s.heap.Extends s'.heap
  constants : ∀ name a, s.constants.lookup name = some a → s'.constants.lookup name = some a
  names : s'.names = declared.reverse ++ s.names

theorem Continues.refl (s : State) : Continues [] s s := ⟨.refl s.heap, fun _ _ h => h, rfl⟩

theorem Continues.trans {declared more : List String} (h : Continues declared s s')
    (h' : Continues more s' s'') : Continues (declared ++ more) s s'' where
  heap := h.heap.trans h'.heap
  constants name a ha := h'.constants name a (h.constants name a ha)
  names := by rw [h'.names, h.names, List.reverse_append, List.append_assoc]

theorem Grows.continues (h : s.Grows s') : Continues [] s s' where
  heap := Heap.extends_of_isPrefix h.heap
  constants _ _ ha := h.constants ▸ ha
  names := congrArg (List.map Prod.fst) h.constants

theorem lookup_eq_none_iff {name : String} : s.constants.lookup name = none ↔ name ∉ s.names := by
  simp only [List.lookup_eq_none_iff, names, List.mem_map, not_exists, not_and, bne_iff_ne, ne_eq]
  exact forall₂_congr fun p _ => not_congr eq_comm

theorem declare_eq_ok {name : String} {a : Address} : s.declare name a = .ok s' ↔
    name ∉ s.names ∧ { s with constants := (name, a) :: s.constants } = s' := by
  rw [← lookup_eq_none_iff]
  cases hlookup : s.constants.lookup name <;> simp [declare, hlookup]

theorem declare_continues {name : String} {a : Address} (h : s.declare name a = .ok s') :
    Continues [name] s s' := by
  obtain ⟨hfresh, rfl⟩ := declare_eq_ok.mp h
  refine ⟨.refl s.heap, ?_, rfl⟩
  intro other b hb
  have hne : (other == name) = false := by
    rw [beq_eq_false_iff_ne]
    rintro rfl
    rw [lookup_eq_none_iff.mpr hfresh] at hb
    cases hb
  rw [List.lookup_cons, hne]
  exact hb

/-- A name that is free before an object is made is free for the object. -/
theorem declare_object {frozen : Bool} {ms : List (Key × Value)} {a : Address} {name : String}
    (h : s.object frozen ms = .ok (a, s')) (hfresh : name ∉ s.names) :
    s'.declare name a = .ok { s' with constants := (name, a) :: s'.constants } := by
  have hnames : s'.names = s.names := (object_grows h).continues.names
  rw [← hnames] at hfresh
  exact declare_eq_ok.mpr ⟨hfresh, rfl⟩

theorem constant_eq_ok {name : String} {a : Address} :
    s.constant name = .ok a ↔ s.constants.lookup name = some a := by
  cases hlookup : s.constants.lookup name <;> simp [constant, hlookup]

theorem assignedObject_eq {property : String} {value : Datum} {properties : Properties}
    (hfresh : property ∉ properties.map Prod.fst) (hprototype : property ≠ prototypeKey) :
    assignedObject property value properties =
      .record (properties ++ [(property, value)]) none false := by
  rw [assignedObject, if_neg hprototype, assign_of_notMem hfresh]

theorem attach_eq_ok {name property : String} {datum : Datum} :
    s.attach name property datum = .ok s' ↔ ∃ a properties, s.constants.lookup name = some a ∧
      s.heap[a]? = some (.record properties none false) ∧
      { s with heap := s.heap.set a (assignedObject property datum properties) } = s' := by
  simp only [attach, bind_eq_ok, constant_eq_ok]
  constructor
  · rintro ⟨a, ha, h⟩
    split at h
    · next properties hproperties =>
        exact ⟨a, properties, ha, hproperties, pure_eq_ok.mp h⟩
    · simp at h
  · rintro ⟨a, properties, ha, hproperties, h⟩
    refine ⟨a, ha, ?_⟩
    rw [hproperties]
    exact pure_eq_ok.mpr h

/-- An object may be replaced unless it is frozen. -/
theorem continues_set {a : Address} {o o' : Object} (h : s.heap[a]? = some o)
    (hkeep : o.frozen → o' = o) : Continues [] s { s with heap := s.heap.set a o' } where
  heap := Heap.extends_set h hkeep
  constants _ _ hb := hb
  names := rfl

theorem attach_continues {name property : String} {datum : Datum}
    (h : s.attach name property datum = .ok s') : Continues [] s s' := by
  obtain ⟨a, properties, -, hproperties, rfl⟩ := attach_eq_ok.mp h
  apply continues_set hproperties
  intro hfrozen
  cases hfrozen

theorem freeze_eq_ok {name : String} {a : Address} {properties : Properties}
    {prototype : Option Address} {frozen : Bool} (ha : s.constants.lookup name = some a)
    (hobject : s.heap[a]? = some (.record properties prototype frozen)) :
    s.freeze name = .ok { s with heap := s.heap.set a (.record properties prototype true) } := by
  rw [freeze, constant_eq_ok.mpr ha]
  simp only [bind, Except.bind, hobject]
  rfl

theorem freeze_continues {name : String} (h : s.freeze name = .ok s') : Continues [] s s' := by
  simp only [freeze, bind_eq_ok] at h
  obtain ⟨a, -, h⟩ := h
  split at h
  · next properties prototype frozen hobject =>
      cases pure_eq_ok.mp h
      apply continues_set hobject
      rintro rfl
      rfl
  · next items frozen hobject =>
      cases pure_eq_ok.mp h
      apply continues_set hobject
      rintro rfl
      rfl
  · cases pure_eq_ok.mp h
    exact .refl s

end State

/-- The constants that a statement declares. -/
def Statement.declared : Statement → List String
  | .declare name _ => [name]
  | .declareFrozen name _ => [name]
  | .attachFrozen _ _ _ => []
  | .freeze _ => []
  | .exportFrozen _ => [exportConstant]

namespace State

variable {s s' : State}

theorem step_continues {statement : Statement} (h : s.step statement = .ok s') :
    Continues statement.declared s s' := by
  cases statement with
  | declare name ms =>
      simp only [step, bind_eq_ok, Prod.exists] at h
      obtain ⟨a, s'', hobject, hdeclare⟩ := h
      exact (object_grows hobject).continues.trans (declare_continues hdeclare)
  | declareFrozen name ms =>
      simp only [step, bind_eq_ok, Prod.exists] at h
      obtain ⟨a, s'', hobject, hdeclare⟩ := h
      exact (object_grows hobject).continues.trans (declare_continues hdeclare)
  | attachFrozen name property ms =>
      simp only [step, bind_eq_ok, Prod.exists] at h
      obtain ⟨a, s'', hobject, hattach⟩ := h
      exact (object_grows hobject).continues.trans (attach_continues hattach)
  | freeze name => exact freeze_continues h
  | exportFrozen ms =>
      simp only [step, bind_eq_ok, Prod.exists] at h
      obtain ⟨a, s'', hobject, hdeclare⟩ := h
      exact (object_grows hobject).continues.trans (declare_continues hdeclare)

section NewObjects

variable {ms : List (Key × Value)} {a : Address} {name : String}

theorem step_declare (h : s.object false ms = .ok (a, s')) (hfresh : name ∉ s.names) :
    s.step (.declare name ms) = .ok { s' with constants := (name, a) :: s'.constants } := by
  rw [step, h]
  exact declare_object h hfresh

theorem step_declareFrozen (h : s.object true ms = .ok (a, s')) (hfresh : name ∉ s.names) :
    s.step (.declareFrozen name ms) = .ok { s' with constants := (name, a) :: s'.constants } := by
  rw [step, h]
  exact declare_object h hfresh

theorem step_exportFrozen (h : s.object true ms = .ok (a, s')) (hfresh : exportConstant ∉ s.names) :
    s.step (.exportFrozen ms) =
      .ok { s' with constants := (exportConstant, a) :: s'.constants } := by
  rw [step, h]
  exact declare_object h hfresh

end NewObjects

/-! ## Runs -/

theorem steps_append {before after : List Statement} {s'' : State} (h : s.steps before = .ok s')
    (h' : s'.steps after = .ok s'') : s.steps (before ++ after) = .ok s'' := by
  induction before generalizing s with
  | nil =>
      cases h
      exact h'
  | cons statement before ih =>
      rw [steps, bind_eq_ok] at h
      obtain ⟨next, hstep, hrest⟩ := h
      rw [List.cons_append, steps, hstep]
      exact ih hrest

theorem steps_singleton {statement : Statement} (h : s.step statement = .ok s') :
    s.steps [statement] = .ok s' := by
  rw [steps, h]
  rfl

/-- Whatever runs, frozen objects and constants stay as they are. -/
theorem steps_continues {statements : List Statement} (h : s.steps statements = .ok s') :
    Continues (statements.flatMap Statement.declared) s s' := by
  induction statements generalizing s with
  | nil =>
      cases h
      exact .refl _
  | cons statement statements ih =>
      rw [steps, bind_eq_ok] at h
      obtain ⟨s'', hstep, hrest⟩ := h
      rw [List.flatMap_cons]
      exact (step_continues hstep).trans (ih hrest)

/-- Statements that declare no constant twice, and none that is there already. -/
def Fresh (s : State) (statements : List Statement) : Prop :=
  (statements.flatMap Statement.declared ++ s.names).Nodup

theorem Fresh.before {before after : List Statement} (h : s.Fresh (before ++ after)) :
    s.Fresh before := by
  rw [Fresh, List.flatMap_append, List.append_assoc] at h
  exact h.sublist ((List.Sublist.refl _).append (List.sublist_append_right _ _))

theorem Fresh.after {before after : List Statement} (h : s.Fresh (before ++ after))
    (hrun : s.steps before = .ok s') : s'.Fresh after := by
  rw [Fresh, List.flatMap_append] at h
  rw [Fresh, (steps_continues hrun).names]
  have hperm : (after.flatMap Statement.declared ++
      ((before.flatMap Statement.declared).reverse ++ s.names)).Perm
      (before.flatMap Statement.declared ++ after.flatMap Statement.declared ++ s.names) := by
    rw [← List.append_assoc]
    exact ((List.reverse_perm _).append_left _ |>.trans List.perm_append_comm).append_right _
  exact hperm.nodup_iff.mpr h

theorem Fresh.notMem {statement : Statement} {name : String} (h : s.Fresh [statement])
    (hname : name ∈ statement.declared) : name ∉ s.names := by
  rw [Fresh, List.flatMap_singleton] at h
  intro hmem
  exact (List.nodup_append.mp h).2.2 name hname name hmem rfl

/-- A constant holds an object of some sort. -/
def Holds (s : State) (name : String) (P : Address → Prop) : Prop :=
  ∃ a, s.constants.lookup name = some a ∧ P a

theorem Holds.continues {declared : List String} {name : String} {P Q : Address → Prop}
    (h : s.Holds name P) (hrun : Continues declared s s') (himp : ∀ a, P a → Q a) :
    s'.Holds name Q := by
  obtain ⟨a, ha, hP⟩ := h
  exact ⟨a, hrun.constants name a ha, himp a hP⟩

end State

/-- A run that declares an export succeeds with it. -/
theorem evaluate_eq_ok {m : EsModule} {s : State} {a : Address}
    (h : State.empty.steps m.statements = .ok s)
    (ha : s.constants.lookup exportConstant = some a) : m.evaluate = .ok (s.heap, a) := by
  rw [evaluate, h]
  simp only [bind, Except.bind, State.constant_eq_ok.mpr ha]
  rfl

end EsModule

end SchemaCompiler
