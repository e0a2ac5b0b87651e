import SchemaCompiler.Proofs.Column.Alike

/-! # Integer columns

What a declared integer column becomes, and under which kind of error it is refused. The checks stand in an
order: a fault counts only where everything checked before it is in order. -/

namespace SchemaCompiler

/-! ## Values of fields -/

/-- The integer that a value denotes. -/
def Json.IsInteger (v : Json) (n : Int) : Prop :=
  ∃ x, v = .number x ∧ x.value = n

/-- A value that denotes no safe integer within bounds, and the kind of its fault. -/
inductive Json.Misses (bounds : Bounds) (v : Json) : ErrorKind → Prop where
  | notInteger (h : ∀ n, ¬v.IsInteger n) : Misses bounds v .type
  | inexact {n} (hn : v.IsInteger n) (h : maxSafeInteger.toInt < n.natAbs) : Misses bounds v .range
  | outside {n} (hn : v.IsSafeInteger n) (h : n < bounds.min ∨ bounds.max < n) :
      Misses bounds v .range

section

variable {field : String} {bounds : Bounds} {v : Json} {kind : ErrorKind}

theorem failsAs_safeInteger : FailsAs (safeInteger field v) kind ↔
    kind = .type ∧ (∀ n, ¬v.IsInteger n) ∨
      kind = .range ∧ ∃ n, v.IsInteger n ∧ maxSafeInteger.toInt < n.natAbs := by
  obtain ⟨-, htype, hrange⟩ := safeInteger_readsByValue field v
  cases kind with
  | type =>
      rw [FailsAs, htype, not_exists]
      simp only [not_exists, true_and, reduceCtorEq, false_and, or_false, Json.IsInteger]
      exact forall_comm
  | range =>
      rw [FailsAs, hrange, exists_comm]
      simp only [true_and, reduceCtorEq, false_and, false_or, Json.IsInteger, ← and_assoc,
        exists_and_right]
  | structural | name | reference =>
      simp only [reduceCtorEq, false_and, or_self, iff_false]
      rintro ⟨f, hf, hkind⟩
      rcases kind_of_safeInteger_eq_error hf with h | h
      · cases hkind.symm.trans h
      · cases hkind.symm.trans h

theorem failsAs_safeIntegerWithin :
    FailsAs (safeIntegerWithin bounds field v) kind ↔ v.Misses bounds kind := by
  have hwithin : ∀ n, FailsAs (within bounds field n) kind ↔
      kind = .range ∧ ¬(bounds.min ≤ n ∧ n ≤ bounds.max) := by
    intro n
    rw [← Bounds.contains_iff]
    by_cases h : bounds.contains n <;> simp [within, h, Fault.kind, eq_comm]
  rw [safeIntegerWithin, failsAs_bind, failsAs_safeInteger]
  simp only [safeInteger_eq_ok, hwithin]
  constructor
  · rintro ((⟨rfl, h⟩ | ⟨rfl, n, hn, h⟩) | ⟨n, hn, rfl, h⟩)
    · exact .notInteger h
    · exact .inexact hn h
    · rw [not_and_or, Int64.not_le, Int64.not_le] at h
      exact .outside hn h
  · rintro (h | ⟨hn, h⟩ | ⟨hn, h⟩)
    · exact .inl (.inl ⟨rfl, h⟩)
    · exact .inl (.inr ⟨rfl, _, hn, h⟩)
    · rw [← Int64.not_le, ← Int64.not_le, ← not_and_or] at h
      exact .inr ⟨_, hn, rfl, h⟩

end

namespace ColumnDeclaration

variable {c : ColumnDeclaration} {field : String} {bounds : Bounds} {x : Option Json} {n : Int64}
  {kind : ErrorKind}

/-! ## Limits -/

theorem failsAs_limit {absent : Int64} :
    FailsAs (limit field bounds absent x) kind ↔ ∃ v, x = some v ∧ v.Misses bounds kind := by
  cases x with
  | none => simp [limit]
  | some v =>
      rw [limit, failsAs_safeIntegerWithin]
      simp

/-- The size of a column is the one whose word it declares. -/
def SizeIs (c : ColumnDeclaration) (size : IntegerSize) : Prop :=
  c.size = some size.token

/-- The bounds that a column has by its size alone. -/
def widest (c : ColumnDeclaration) (size : IntegerSize) : Bounds :=
  size.bounds c.unsigned

/-- The least value of a column, which starts at one where its rows are numbered. -/
def LeastIs (c : ColumnDeclaration) (size : IntegerSize) : Int64 → Prop :=
  LimitIs (c.widest size) (if c.autoIncrement then 1 else (c.widest size).min) c.minValue

def GreatestIs (c : ColumnDeclaration) (size : IntegerSize) : Int64 → Prop :=
  LimitIs (c.widest size) (c.widest size).max c.maxValue

/-- The size and the limits of a column are in order. -/
structure LimitsAre (c : ColumnDeclaration) (size : IntegerSize) (bounds : Bounds) : Prop where
  sized : c.SizeIs size
  least : c.LeastIs size bounds.min
  greatest : c.GreatestIs size bounds.max
  ordered : bounds.min ≤ bounds.max

theorem failsAs_requiredSize :
    FailsAs c.requiredSize kind ↔ kind = .type ∧ ∀ size, ¬c.SizeIs size := by
  have hsize : (∀ size, ¬c.SizeIs size) ↔ ∀ size, c.requiredSize ≠ .ok size := by
    simp only [SizeIs, ne_eq, requiredSize_eq_ok]
  rw [hsize]
  unfold requiredSize
  split
  · simp [Fault.kind, eq_comm]
  · split <;> simp [Fault.kind, eq_comm]

/-! ## Defaults -/

/-- The default of an integer column lies within its bounds, and there is none where rows are numbered. -/
def DefaultIs (c : ColumnDeclaration) (bounds : Bounds) : Option DefaultValue → Prop :=
  c.DefaultAmong fun n => c.autoIncrement = false ∧ bounds.min ≤ n ∧ n ≤ bounds.max

/-- A default is refused for its shape where it is nested. -/
theorem failsAs_scalarDefault : FailsAs c.scalarDefault kind ↔
    kind = .structural ∧ ∃ v, c.defaultValue = some v ∧ v.IsNested := by
  unfold scalarDefault declaredDefault?
  cases c.defaultValue with
  | none => simp
  | some v => cases v <;> simp [Json.IsNested, Fault.kind, eq_comm]

theorem failsAs_integerDefault {declared : Option Json} :
    FailsAs (integerDefault bounds declared) kind ↔
      ∃ v, declared = some v ∧ v.Misses bounds kind := by
  cases declared with
  | none => simp [integerDefault]
  | some v =>
      simp only [integerDefault, failsAs_bind, failsAs_safeIntegerWithin, failsAs_pure, and_false,
        exists_false, or_false, Option.some.injEq, exists_eq_left']

/-- The kind under which the default of an integer column within bounds is refused. -/
inductive DefaultFault (c : ColumnDeclaration) (bounds : Bounds) : ErrorKind → Prop where
  | nested {v} (hv : c.defaultValue = some v) (nested : v.IsNested) : DefaultFault c bounds .structural
  | numbered {v} (hv : c.Declares v) (scalar : ¬v.IsNested) (numbered : c.autoIncrement = true) :
      DefaultFault c bounds .type
  | misses {v kind} (hv : c.Declares v) (scalar : ¬v.IsNested) (plain : c.autoIncrement = false)
      (misses : v.Misses bounds kind) : DefaultFault c bounds kind

/-- The last steps of the rule, which read the default. -/
theorem failsAs_default {α : Type} {f : Option DefaultValue → α} :
    FailsAs (do
      let declared ← c.scalarDefault
      if c.autoIncrement ∧ declared.isSome then throw .autoIncrementDefault
      let default ← integerDefault bounds declared
      return f default) kind ↔ c.DefaultFault bounds kind := by
  simp only [failsAs_bind, failsAs_guard, failsAs_pure, failsAs_scalarDefault,
    failsAs_integerDefault, and_false, exists_false, or_false, Fault.kind]
  constructor
  · rintro (⟨rfl, v, hv, h⟩ | ⟨declared, hdeclared, ⟨⟨h, hsome⟩, rfl⟩ | ⟨h, v, rfl, hmiss⟩⟩)
    · exact .nested hv h
    · obtain ⟨v, rfl⟩ := Option.isSome_iff_exists.mp hsome
      obtain ⟨hv, hscalar⟩ := scalarDefault_eq_ok_some.mp hdeclared
      exact .numbered hv hscalar h
    · obtain ⟨hv, hscalar⟩ := scalarDefault_eq_ok_some.mp hdeclared
      exact .misses hv hscalar (by simpa using h) hmiss
  · rintro (⟨hv, h⟩ | ⟨hv, hscalar, h⟩ | ⟨hv, hscalar, h, hmiss⟩)
    · exact .inl ⟨rfl, _, hv, h⟩
    · exact .inr ⟨_, scalarDefault_eq_ok_some.mpr ⟨hv, hscalar⟩, .inl ⟨⟨h, rfl⟩, rfl⟩⟩
    · exact .inr ⟨_, scalarDefault_eq_ok_some.mpr ⟨hv, hscalar⟩, .inr ⟨by simp [h], _, rfl, hmiss⟩⟩

/-- The same steps where they succeed. -/
theorem defaultIs_iff {default : Option DefaultValue} :
    (∃ declared, c.scalarDefault = .ok declared ∧ ¬(c.autoIncrement ∧ declared.isSome) ∧
      integerDefault bounds declared = .ok default) ↔ c.DefaultIs bounds default := by
  rw [DefaultIs, ← defaultAmong_iff]
  refine exists_congr fun declared => and_congr_right fun _ => ?_
  rw [integerDefault_eq_ok]
  cases declared with
  | none => simp
  | some v =>
      simp only [Option.isSome_some, and_true, Bool.not_eq_true, reduceCtorEq, false_and, false_or,
        Bounds.contains_iff]
      constructor
      · rintro ⟨hplain, w, n, hw, hn, hbounds, hdefault⟩
        exact ⟨w, n, hw, hn, ⟨hplain, hbounds⟩, hdefault⟩
      · rintro ⟨w, n, hw, hn, ⟨hplain, hbounds⟩, hdefault⟩
        exact ⟨hplain, w, n, hw, hn, hbounds, hdefault⟩

/-! ## Columns -/

/-- The kind under which a declared integer column is refused. Each fault presumes that all which is
checked before it is in order. -/
inductive IntegerFault (c : ColumnDeclaration) : ErrorKind → Prop where
  | size (unsized : ∀ size, ¬c.SizeIs size) : IntegerFault c .type
  | minValue {size v kind} (sized : c.SizeIs size) (hv : c.minValue = some v)
      (misses : v.Misses (c.widest size) kind) : IntegerFault c kind
  | maxValue {size min v kind} (sized : c.SizeIs size) (least : c.LeastIs size min)
      (hv : c.maxValue = some v) (misses : v.Misses (c.widest size) kind) : IntegerFault c kind
  | crossed {size min max} (sized : c.SizeIs size) (least : c.LeastIs size min)
      (greatest : c.GreatestIs size max) (crossed : max < min) : IntegerFault c .range
  | default {size bounds kind} (limits : c.LimitsAre size bounds) (fault : c.DefaultFault bounds kind) :
      IntegerFault c kind

theorem failsAs_integer : FailsAs c.integer kind ↔ c.IntegerFault kind := by
  constructor
  · intro h
    -- step by step, either the check fails or what it gave is in order and the rest fails
    rcases failsAs_bind.mp h with h | ⟨size, hsize, h⟩
    · obtain ⟨rfl, hunsized⟩ := failsAs_requiredSize.mp h
      exact .size hunsized
    rw [requiredSize_eq_ok] at hsize
    rcases failsAs_bind.mp h with h | ⟨min, hmin, h⟩
    · obtain ⟨v, hv, hmiss⟩ := failsAs_limit.mp h
      exact .minValue hsize hv hmiss
    rw [limit_eq_ok] at hmin
    rcases failsAs_bind.mp h with h | ⟨max, hmax, h⟩
    · obtain ⟨v, hv, hmiss⟩ := failsAs_limit.mp h
      exact .maxValue hsize hmin hv hmiss
    rw [limit_eq_ok] at hmax
    rcases failsAs_guard.mp h with ⟨hcrossed, rfl⟩ | ⟨hordered, h⟩
    · exact .crossed hsize hmin hmax hcrossed
    · have hlimits : c.LimitsAre size ⟨min, max⟩ := ⟨hsize, hmin, hmax, Int64.not_lt.mp hordered⟩
      exact .default hlimits (failsAs_default.mp h)
  · intro h
    rw [integer, failsAs_bind]
    cases h with
    | size unsized => exact .inl (failsAs_requiredSize.mpr ⟨rfl, unsized⟩)
    | minValue sized hv misses =>
        refine .inr ⟨_, requiredSize_eq_ok.mpr sized, ?_⟩
        exact failsAs_bind.mpr (.inl (failsAs_limit.mpr ⟨_, hv, misses⟩))
    | maxValue sized least hv misses =>
        refine .inr ⟨_, requiredSize_eq_ok.mpr sized, ?_⟩
        refine failsAs_bind.mpr (.inr ⟨_, limit_eq_ok.mpr least, ?_⟩)
        exact failsAs_bind.mpr (.inl (failsAs_limit.mpr ⟨_, hv, misses⟩))
    | crossed sized least greatest crossed =>
        refine .inr ⟨_, requiredSize_eq_ok.mpr sized, ?_⟩
        refine failsAs_bind.mpr (.inr ⟨_, limit_eq_ok.mpr least, ?_⟩)
        refine failsAs_bind.mpr (.inr ⟨_, limit_eq_ok.mpr greatest, ?_⟩)
        exact failsAs_guard.mpr (.inl ⟨crossed, rfl⟩)
    | default limits fault =>
        refine .inr ⟨_, requiredSize_eq_ok.mpr limits.sized, ?_⟩
        refine failsAs_bind.mpr (.inr ⟨_, limit_eq_ok.mpr limits.least, ?_⟩)
        refine failsAs_bind.mpr (.inr ⟨_, limit_eq_ok.mpr limits.greatest, ?_⟩)
        exact failsAs_guard.mpr (.inr ⟨Int64.not_lt.mpr limits.ordered, failsAs_default.mpr fault⟩)

/-- A declared integer column is accepted exactly where its size, its limits and its default are in
order, and it then keeps all of them; otherwise the first check that fails gives the kind of the error. -/
theorem integer_exact :
    (∀ column, c.integer = .ok column ↔ ∃ size bounds default, c.LimitsAre size bounds ∧
      c.DefaultIs bounds default ∧ column =
        ⟨c.name, c.nullable, default, .integer size c.unsigned c.autoIncrement bounds, none⟩) ∧
    ∀ kind, FailsAs c.integer kind ↔ c.IntegerFault kind := by
  refine ⟨fun column => ?_, fun kind => failsAs_integer⟩
  simp only [integer_eq_ok, requiredSize_eq_ok, limit_eq_ok, ← defaultIs_iff]
  constructor
  · rintro ⟨size, min, max, declared, default, hsize, hmin, hmax, hle, hdeclared, h, hdefault, rfl⟩
    exact ⟨size, ⟨min, max⟩, default, ⟨hsize, hmin, hmax, hle⟩, ⟨declared, hdeclared, h, hdefault⟩, rfl⟩
  · rintro ⟨size, ⟨min, max⟩, default, ⟨hsize, hmin, hmax, hle⟩, ⟨declared, hdeclared, h, hdefault⟩, rfl⟩
    exact ⟨size, min, max, declared, default, hsize, hmin, hmax, hle, hdeclared, h, hdefault, rfl⟩

end ColumnDeclaration

end SchemaCompiler
