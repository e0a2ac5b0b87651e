import SchemaCompiler.Proofs.Column.Validation
import SchemaCompiler.Proofs.Declaration.Alike
import SchemaCompiler.Proofs.Outcome.Paired

/-! # Rules see the values of numbers

How a number is held does not change what a rule makes of it. Every rule is followed step by step on two
declarations that are alike: a step that reads a number gives the same integer on both, and every other
step reads what the two share. -/

namespace SchemaCompiler

theorem Fault.Alike.refl (f : Fault) : f.Alike f :=
  rfl

/-! ## Safe integers -/

section SafeIntegers

variable {field : String} {bounds : Bounds} {v v' : Json}

/-- Numbers of the same value are read alike. -/
theorem ReadAs.alike {x y : Json.Number} {r r' : Except Fault Int64} (hvalue : x.value = y.value)
    (h : ReadAs field x r) (h' : ReadAs field y r') : Paired Fault.Alike Eq r r' := by
  cases h with
  | @safe n value bound =>
      cases h' with
      | @safe n' value' =>
          exact .ok (Int64.toInt_inj.mp (Json.Number.value_unique value (hvalue.trans value')))
      | large value' bound' =>
          obtain rfl := Json.Number.value_unique value (hvalue.trans value')
          exact absurd bound (Int.not_le.mpr bound')
      | fraction value' => exact absurd ⟨_, hvalue.symm.trans value⟩ value'
  | @large n value bound =>
      cases h' with
      | safe value' bound' =>
          obtain rfl := Json.Number.value_unique value (hvalue.trans value')
          exact absurd bound' (Int.not_le.mpr bound)
      | large => exact .error rfl
      | fraction value' => exact absurd ⟨_, hvalue.symm.trans value⟩ value'
  | fraction value =>
      cases h' with
      | safe value' => exact absurd ⟨_, hvalue.trans value'⟩ value
      | large value' => exact absurd ⟨_, hvalue.trans value'⟩ value
      | fraction => exact .error rfl

theorem safeInteger_alike (h : v.Alike v') :
    Paired Fault.Alike Eq (safeInteger field v) (safeInteger field v') := by
  cases h with
  | number hvalue => exact (safeInteger_number field _).alike hvalue (safeInteger_number field _)
  | null | bool | string | array | object => exact .error rfl

theorem safeIntegerWithin_alike (h : v.Alike v') :
    Paired Fault.Alike Eq (safeIntegerWithin bounds field v) (safeIntegerWithin bounds field v') :=
  (safeInteger_alike h).bindEq fun _ => .rfl Fault.Alike.refl

end SafeIntegers

theorem isSome_eq {α : Type} {R : α → α → Prop} {x x' : Option α} (h : Option.Rel R x x') :
    x.isSome = x'.isSome := by
  cases h <;> rfl

namespace ColumnDeclaration

variable {field : String} {bounds : Bounds} {x x' : Option Json}

/-! ## Fields -/

theorem limit_alike {absent : Int64} (h : Option.Rel Json.Alike x x') :
    Paired Fault.Alike Eq (limit field bounds absent x) (limit field bounds absent x') := by
  cases h with
  | none => exact .ok rfl
  | some h => exact safeIntegerWithin_alike h

theorem optionalLimit_alike (h : Option.Rel Json.Alike x x') :
    Paired Fault.Alike Eq (optionalLimit field bounds x) (optionalLimit field bounds x') := by
  cases h with
  | none => exact .ok rfl
  | some h => exact (safeIntegerWithin_alike h).bindEq fun _ => .ok rfl

theorem requiredLimit_alike (h : Option.Rel Json.Alike x x') :
    Paired Fault.Alike Eq (requiredLimit field x) (requiredLimit field x') := by
  cases h with
  | none => exact .error rfl
  | some h => exact safeIntegerWithin_alike h

variable {c c' : ColumnDeclaration}

theorem Alike.requiredSize (h : c.Alike c') : c.requiredSize = c'.requiredSize := by
  simp only [ColumnDeclaration.requiredSize, h.size, h.kind]

theorem Alike.scalarDefault (h : c.Alike c') :
    Paired Fault.Alike (Option.Rel Json.Alike) c.scalarDefault c'.scalarDefault := by
  have hdefault := h.defaultValue
  unfold ColumnDeclaration.scalarDefault declaredDefault?
  generalize c.defaultValue = x, c'.defaultValue = x' at hdefault
  cases hdefault with
  | none => exact .ok .none
  | some h =>
      cases h with
      | null => exact .ok .none
      | array | object => exact .error rfl
      | bool => exact .ok (.some .bool)
      | number h => exact .ok (.some (.number h))
      | string => exact .ok (.some .string)

/-! ## Defaults -/

theorem integerDefault_alike (h : Option.Rel Json.Alike x x') :
    Paired Fault.Alike Eq (integerDefault bounds x) (integerDefault bounds x') := by
  cases h with
  | none => exact .ok rfl
  | some h => exact (safeIntegerWithin_alike h).bindEq fun _ => .ok rfl

theorem timestampDefault_alike {unsigned : Bool} (h : Option.Rel Json.Alike x x') :
    Paired Fault.Alike Eq (timestampDefault unsigned x) (timestampDefault unsigned x') := by
  cases h with
  | none => exact .ok rfl
  | some h =>
      simp only [timestampDefault]
      apply Paired.guard Iff.rfl (Fault.Alike.refl _)
      exact (safeInteger_alike h).bindEq fun _ => .rfl Fault.Alike.refl

theorem stringDefault_alike {minLength : Option Int64} (h : Option.Rel Json.Alike x x') :
    Paired Fault.Alike Eq (stringDefault minLength x) (stringDefault minLength x') := by
  cases h with
  | none => exact .ok rfl
  | some h =>
      cases h with
      | string => exact .rfl Fault.Alike.refl
      | null | bool | number | array | object => exact .error rfl

theorem binaryDefault_alike {maxSize : Int64} (h : Option.Rel Json.Alike x x') :
    Paired Fault.Alike Eq (binaryDefault maxSize x) (binaryDefault maxSize x') := by
  cases h with
  | none => exact .ok rfl
  | some h =>
      cases h with
      | string => exact .rfl Fault.Alike.refl
      | null | bool | number | array | object => exact .error rfl

theorem codeDefault_alike {domain : CodeDomain} (h : Option.Rel Json.Alike x x') :
    Paired Fault.Alike Eq (codeDefault domain x) (codeDefault domain x') := by
  cases h with
  | none => exact .ok rfl
  | some h => exact (safeInteger_alike h).bindEq fun _ => .rfl Fault.Alike.refl

/-! ## Enumerations -/

theorem codeValue_alike {before : List CodeValue} {d d' : CodeDeclaration} (h : d.Alike d') :
    Paired Fault.Alike Eq (codeValue before d) (codeValue before d') := by
  unfold codeValue
  rw [h.value]
  exact (safeIntegerWithin_alike h.code).bindEq fun _ => .rfl Fault.Alike.refl

theorem codeValues_alike {before : List CodeValue} {ds ds' : List CodeDeclaration}
    (h : List.Forall₂ CodeDeclaration.Alike ds ds') :
    Paired Fault.Alike Eq (codeValues before ds) (codeValues before ds') := by
  induction h generalizing before with
  | nil => exact .ok rfl
  | cons hfirst _ ih => exact (codeValue_alike hfirst).bindEq fun _ => ih

/-! ## Rules -/

theorem Alike.integer (h : c.Alike c') : Paired Fault.Alike Eq c.integer c'.integer := by
  simp only [ColumnDeclaration.integer, h.requiredSize, h.unsigned, h.autoIncrement, h.name,
    h.nullable]
  apply (Paired.rfl Fault.Alike.refl).bindEq
  intro size
  apply (limit_alike h.minValue).bindEq
  intro min
  apply (limit_alike h.maxValue).bindEq
  intro max
  apply Paired.guard Iff.rfl (Fault.Alike.refl _)
  apply h.scalarDefault.bind
  intro declared declared' hdeclared
  apply Paired.guard (by rw [isSome_eq hdeclared]) (Fault.Alike.refl _)
  exact (integerDefault_alike hdeclared).bindEq fun _ => .ok rfl

theorem Alike.serial (h : c.Alike c') : Paired Fault.Alike Eq c.serial c'.serial := by
  simp only [ColumnDeclaration.serial, h.requiredSize, h.name, h.nullable, isSome_eq h.minValue,
    isSome_eq h.maxValue]
  apply (Paired.rfl Fault.Alike.refl).bindEq
  intro size
  apply Paired.guard Iff.rfl (Fault.Alike.refl _)
  apply h.scalarDefault.bind
  intro declared declared' hdeclared
  apply Paired.guard (by rw [isSome_eq hdeclared]) (Fault.Alike.refl _)
  exact .rfl Fault.Alike.refl

theorem Alike.timestamp (h : c.Alike c') : Paired Fault.Alike Eq c.timestamp c'.timestamp := by
  simp only [ColumnDeclaration.timestamp, h.unsigned, h.name, h.nullable]
  apply h.scalarDefault.bind
  intro declared declared' hdeclared
  exact (timestampDefault_alike hdeclared).bindEq fun _ => .ok rfl

theorem Alike.string (h : c.Alike c') : Paired Fault.Alike Eq c.string c'.string := by
  simp only [ColumnDeclaration.string, h.name, h.nullable]
  apply (requiredLimit_alike h.maxLength).bindEq
  intro maxLength
  apply (optionalLimit_alike h.minLength).bindEq
  intro minLength
  apply h.scalarDefault.bind
  intro declared declared' hdeclared
  exact (stringDefault_alike hdeclared).bindEq fun _ => .ok rfl

theorem Alike.binary (h : c.Alike c') : Paired Fault.Alike Eq c.binary c'.binary := by
  simp only [ColumnDeclaration.binary, h.name, h.nullable]
  apply (requiredLimit_alike h.maxSize).bindEq
  intro maxSize
  apply (limit_alike h.minSize).bindEq
  intro minSize
  apply h.scalarDefault.bind
  intro declared declared' hdeclared
  exact (binaryDefault_alike hdeclared).bindEq fun _ => .ok rfl

theorem Alike.boolean (h : c.Alike c') : Paired Fault.Alike Eq c.boolean c'.boolean := by
  simp only [ColumnDeclaration.boolean, h.name, h.nullable]
  apply h.scalarDefault.bind
  intro declared declared' hdeclared
  exact (integerDefault_alike hdeclared).bindEq fun _ => .ok rfl

theorem values_alike {xs xs' : Option (List CodeDeclaration)}
    (h : Option.Rel (List.Forall₂ CodeDeclaration.Alike) xs xs') :
    List.Forall₂ CodeDeclaration.Alike (xs.getD []) (xs'.getD []) := by
  cases h with
  | none => exact .nil
  | some h => exact h

theorem Alike.code (h : c.Alike c') : Paired Fault.Alike Eq c.code c'.code := by
  have hvalues := values_alike h.values
  simp only [ColumnDeclaration.code, h.name, h.nullable]
  apply Paired.guard (by simp only [List.isEmpty_iff_length_eq_zero, hvalues.length_eq])
    (Fault.Alike.refl _)
  apply (codeValues_alike hvalues).bindEq
  intro values
  apply h.scalarDefault.bind
  intro declared declared' hdeclared
  exact (codeDefault_alike hdeclared).bindEq fun _ => .ok rfl

theorem Alike.rule (h : c.Alike c') (kind : ColumnKind) :
    Paired Fault.Alike Eq (rule kind c) (rule kind c') := by
  cases kind with
  | integer => exact h.integer
  | serial => exact h.serial
  | timestamp => exact h.timestamp
  | string => exact h.string
  | binary => exact h.binary
  | boolean => exact h.boolean
  | code => exact h.code
  | foreignKey => exact .error rfl

theorem Alike.knownKind (h : c.Alike c') : c.knownKind = c'.knownKind := by
  simp only [ColumnDeclaration.knownKind, h.kind]

/-- A column that is declared directly is the same, however its numbers are held. -/
theorem Alike.validate (h : c.Alike c') : Paired Fault.Alike Eq c.validate c'.validate := by
  simp only [ColumnDeclaration.validate, h.knownKind]
  exact (Paired.rfl Fault.Alike.refl).bindEq h.rule

end ColumnDeclaration

end SchemaCompiler
