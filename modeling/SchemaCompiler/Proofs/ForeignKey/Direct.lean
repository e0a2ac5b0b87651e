import SchemaCompiler.Ddl.Emission
import SchemaCompiler.Proofs.Column.Limits
import SchemaCompiler.Proofs.Descriptor.Emission
import SchemaCompiler.Proofs.Outcome.Paired
import SchemaCompiler.Proofs.Schema.Acceptance

/-! # References as columns declared directly

A reference has rules of its own. They are those of an integer column that declares the limits of the
target itself: the two take the same defaults, refuse the others for the same reason, and look alike in
scripts and descriptors but for the reference. -/

namespace SchemaCompiler

/-! ## The two columns -/

namespace ForeignKey

/-- Following a reference leads, over columns that resolve and may not be null, to one that is declared
directly and has such a type. -/
inductive LeadsTo (databases : List DatabaseDeclaration) (size : IntegerSize) (unsigned : Bool)
    (bounds : Bounds) : DatabaseDeclaration → ColumnDeclaration → Prop where
  | last {home c path t column} (hpath : c.path = some path)
      (ht : findTarget databases home path = .ok t) (hnullable : t.column.nullable = false)
      (hkind : t.column.isReference = false) (hvalidate : t.column.validate = .ok column)
      (hreferable : column.type.referable? = some (size, unsigned, bounds)) :
      LeadsTo databases size unsigned bounds home c
  | next {home c path t column} (hpath : c.path = some path)
      (ht : findTarget databases home path = .ok t) (hnullable : t.column.nullable = false)
      (hkind : t.column.isReference) (hresolve : resolve databases t.database t.column = .ok column)
      (hleads : LeadsTo databases size unsigned bounds t.database t.column) :
      LeadsTo databases size unsigned bounds home c

end ForeignKey

/-- The plain integer column with the name, the nullability and the default of another declaration, and
with limits that it declares itself. -/
def ColumnDeclaration.direct (c : ColumnDeclaration) (size : IntegerSize) (unsigned : Bool)
    (bounds : Bounds) : ColumnDeclaration where
  name := c.name
  kind := ColumnKind.integer.token
  nullable := c.nullable
  defaultValue := c.defaultValue
  size := some size.token
  unsigned := unsigned
  minValue := some (.int bounds.min)
  maxValue := some (.int bounds.max)

/-- A resolved reference and the column that would have been declared in its place. -/
structure Column.StandsFor (reference direct : Column) : Prop where
  foreignKey : reference.foreignKey.isSome
  same : { reference with foreignKey := none } = direct
  typeClause : Ddl.typeClause reference = Ddl.typeClause direct
  record_name : (Descriptor.columnRecord reference).name = (Descriptor.columnRecord direct).name
  record_fields : (Descriptor.columnRecord reference).fields.filter (·.1 ≠ "references") =
    (Descriptor.columnRecord direct).fields

/-! ## What they look like -/

namespace Descriptor

theorem ne_references_of_sublist {fields : List (String × Field)} {keys : List String}
    (h : (fields.map Prod.fst).Sublist keys) (hkeys : "references" ∉ keys) :
    fields.filter (·.1 ≠ "references") = fields := by
  rw [List.filter_eq_self]
  intro field hfield
  have hkey : field.1 ∈ keys := h.subset (List.mem_map_of_mem hfield)
  have hne : field.1 ≠ "references" := fun he => hkeys (he ▸ hkey)
  simpa using hne

/-- Without its reference a column has the other fields of its record. -/
theorem columnRecord_of_foreignKey_none (c : Column) :
    (columnRecord { c with foreignKey := none }).fields =
      (columnRecord c).fields.filter (·.1 ≠ "references") := by
  have hdefault := ne_references_of_sublist (defaultFields_keys c) (by decide)
  have htype := ne_references_of_sublist (typeFields_keys c.type) (by decide)
  have hbounds := ne_references_of_sublist (boundsFields_keys c) (by decide)
  have hcode := ne_references_of_sublist (codeFields_keys c) (by decide)
  have hreference : (referenceFields c).filter (·.1 ≠ "references") = [] := by
    unfold referenceFields
    split <;> simp
  simp only [columnRecord, List.filter_append, hdefault, htype, hbounds, hcode, hreference]
  rfl

end Descriptor

theorem Column.standsFor_of_foreignKey {c : Column} (h : c.foreignKey.isSome) :
    c.StandsFor { c with foreignKey := none } where
  foreignKey := h
  same := rfl
  typeClause := rfl
  record_name := rfl
  record_fields := (Descriptor.columnRecord_of_foreignKey_none c).symm

/-! ## How they are checked -/

namespace ColumnDeclaration

variable {c : ColumnDeclaration} {size : IntegerSize} {unsigned : Bool} {bounds : Bounds}

/-- A reference to a suitable target leaves its default to be checked. -/
theorem refer_of_referable {home : DatabaseDeclaration} {path : String} {t : Target}
    {resolved : Column} {action : Option OnDelete} (hnullable : resolved.nullable = false)
    (hreferable : resolved.type.referable? = some (size, unsigned, bounds))
    (haction : c.deleteAction = .ok action) : c.refer home path t resolved = do
      let declared ← c.scalarDefault
      let default ← integerDefault bounds declared
      return ⟨c.name, c.nullable, default, .integer size unsigned false bounds,
        some ⟨t.database.name, t.database.name ≠ home.name, t.table.name, t.column.name, action⟩⟩ := by
  simp only [refer, hnullable, hreferable, haction]
  rfl

/-- Limits in order may be declared, which leaves the default to be checked. -/
theorem direct_integer (h : (ColumnType.integer size unsigned false bounds).InOrder) :
    (c.direct size unsigned bounds).integer = do
      let declared ← c.scalarDefault
      let default ← integerDefault bounds declared
      return ⟨c.name, c.nullable, default, .integer size unsigned false bounds, none⟩ := by
  cases h with
  | integer least ordered greatest =>
      have hmin : (size.bounds unsigned).contains bounds.min :=
        Bounds.contains_iff.mpr ⟨least, Int64.le_trans ordered greatest⟩
      have hmax : (size.bounds unsigned).contains bounds.max :=
        Bounds.contains_iff.mpr ⟨Int64.le_trans least ordered, greatest⟩
      have hsize : (c.direct size unsigned bounds).requiredSize = .ok size := by
        cases size <;> rfl
      have hdefault : (c.direct size unsigned bounds).scalarDefault = c.scalarDefault := rfl
      have hminValue : limit "minValue" (size.bounds unsigned) (size.bounds unsigned).min
          (some (.int bounds.min)) = .ok bounds.min :=
        limit_of_contains (isSafeInteger_of_contains hmin) hmin
      have hmaxValue : limit "maxValue" (size.bounds unsigned) (size.bounds unsigned).max
          (some (.int bounds.max)) = .ok bounds.max :=
        limit_of_contains (isSafeInteger_of_contains hmax) hmax
      have hordered : ¬bounds.max < bounds.min := Int64.not_lt.mpr ordered
      rw [integer, hsize, hdefault]
      simp only [direct, bind, Except.bind, Bool.false_eq_true, if_false, hminValue, hmaxValue,
        hordered, false_and]

end ColumnDeclaration

namespace ForeignKey

variable {databases : List DatabaseDeclaration} {size : IntegerSize} {unsigned : Bool}
  {bounds : Bounds} {home : DatabaseDeclaration} {c : ColumnDeclaration}

/-- A reference that leads to a type points at a target that settles with this type. -/
theorem LeadsTo.settles (h : LeadsTo databases size unsigned bounds home c) :
    ∃ path t n resolved, c.path = some path ∧ findTarget databases home path = .ok t ∧
      Settles databases n t resolved ∧ resolved.nullable = false ∧
      resolved.type.referable? = some (size, unsigned, bounds) := by
  induction h with
  | @last home c path t column hpath ht hnullable hkind hvalidate hreferable =>
      have hsettles : Settles databases 0 t column := .declared hkind hvalidate
      exact ⟨path, t, 0, column, hpath, ht, hsettles, hsettles.keeps.nullable.trans hnullable,
        hreferable⟩
  | @next home c path t column hpath ht hnullable hkind hresolve _ ih =>
      obtain ⟨path', u, n, resolved, hpath', hu, hsettles, hrefer⟩ := settles_of_resolveFrom hresolve
      have hcolumn : Settles databases (n + 1) t column :=
        .reference hkind hpath' hu hsettles hrefer
      -- the column in between settles by the way that the rest of the chain goes
      obtain ⟨_, _, _, resolved', hpath'', hu', hsettles', -, hreferable⟩ := ih
      cases hpath'.symm.trans hpath''
      cases hu.symm.trans hu'
      obtain ⟨-, rfl⟩ := hsettles.unique hsettles'
      exact ⟨path, t, n + 1, column, hpath, ht, hcolumn, hcolumn.keeps.nullable.trans hnullable,
        (ColumnDeclaration.refer_referable? hrefer).trans hreferable⟩

/-- A reference that leads to a type resolves as the column that is declared with that type, or both
have the same fault. -/
theorem resolve_as_declared (hnames : (databases.map (·.name)).Nodup) (hhome : home ∈ databases)
    (hleads : LeadsTo databases size unsigned bounds home c) (haction : c.ActionFits) :
    Paired (fun e f => e.subject = f) Column.StandsFor (resolve databases home c)
      (c.direct size unsigned bounds).integer := by
  obtain ⟨path, t, n, resolved, hpath, ht, hsettles, hnullable, hreferable⟩ := hleads.settles
  obtain ⟨action, haction⟩ := ColumnDeclaration.exists_deleteAction_iff.mpr haction
  rw [resolve_of_settles hnames hhome hpath ht hsettles,
    ColumnDeclaration.refer_of_referable hnullable hreferable haction,
    ColumnDeclaration.direct_integer (hsettles.inOrder.type.integer_of_referable? hreferable)]
  apply Paired.unplacedLeft
  apply (Paired.rfl fun _ => rfl).bindEq
  intro declared
  apply (Paired.rfl fun _ => rfl).bindEq
  intro default
  exact .ok (Column.standsFor_of_foreignKey rfl)

/-! ## A reference to a reference -/

namespace Chained

def grade : ColumnDeclaration where
  name := "grade"
  kind := "integer"
  size := some "SMALLINT"
  minValue := some (.int (-5))

def copied : ColumnDeclaration where
  name := "copied"
  kind := "FK"
  path := some "items.grade"

def items : TableDeclaration where
  name := "items"
  columns := [grade, copied]

def shop : DatabaseDeclaration where
  name := "shop"
  kind := "fixed"
  tables := [items]

/-- A reference with a default outside the limits that it takes over. -/
def overdrawn : ColumnDeclaration where
  name := "least"
  kind := "FK"
  nullable := true
  defaultValue := some (.int (-6))
  path := some "shop.items.copied"
  onDelete := some "set null"

def copiedColumn : Column :=
  ⟨"copied", false, none, .integer .small false false ⟨-5, 32767⟩,
    some ⟨"shop", false, "items", "grade", none⟩⟩

theorem leadsTo_overdrawn : LeadsTo [shop] .small false ⟨-5, 32767⟩ shop overdrawn := by
  have hgrade : findTarget [shop] shop "items.grade" = .ok ⟨shop, items, grade⟩ := by cbv
  have hcopied : findTarget [shop] shop "shop.items.copied" = .ok ⟨shop, items, copied⟩ := by cbv
  have hvalidate : grade.validate =
      .ok ⟨"grade", false, none, .integer .small false false ⟨-5, 32767⟩, none⟩ := by cbv
  have hresolve : resolve [shop] shop copied = .ok copiedColumn := by cbv
  exact .next rfl hcopied rfl (by decide) hresolve (.last rfl hgrade rfl (by decide) hvalidate rfl)

theorem resolve_as_declared_overdrawn :
    LeadsTo [shop] .small false ⟨-5, 32767⟩ shop overdrawn ∧ overdrawn.ActionFits ∧
      Paired (fun e f => e.subject = f) Column.StandsFor (resolve [shop] shop overdrawn)
        (overdrawn.direct .small false ⟨-5, 32767⟩).integer := by
  have haction : overdrawn.ActionFits := by
    intro text htext
    cases htext
    exact ⟨.setNull, by decide, fun _ => rfl⟩
  exact ⟨leadsTo_overdrawn, haction,
    resolve_as_declared (by decide) (.head _) leadsTo_overdrawn haction⟩

end Chained

/-! ## Databases of one name -/

namespace Namesakes

def serial : ColumnDeclaration where
  name := "id"
  kind := "serial"
  size := some "INT"

def serials : TableDeclaration where
  name := "t"
  columns := [serial]

def core : DatabaseDeclaration where
  name := "app"
  kind := "fixed"
  tables := [serials]

def reference : ColumnDeclaration where
  name := "id"
  kind := "FK"
  path := some "fixed.t.id"

def references : TableDeclaration where
  name := "t"
  columns := [reference]

def tenant : DatabaseDeclaration where
  name := "app"
  kind := "instance"
  tables := [references]

def hop : ColumnDeclaration where
  name := "ref"
  kind := "FK"
  path := some "t.id"

def referenceColumn : Column :=
  ⟨"id", false, none, .integer .regular true false ⟨1, 4294967295⟩,
    some ⟨"app", false, "t", "id", none⟩⟩

/-- Where databases share their name, a chain through both passes for a cycle, although the column
declared in place of the reference is in order. -/
theorem resolve_namesakes : LeadsTo [core, tenant] .regular true ⟨1, 4294967295⟩ tenant hop ∧
    hop.ActionFits ∧ (∀ column, resolve [core, tenant] tenant hop ≠ .ok column) ∧
    ∃ column, (hop.direct .regular true ⟨1, 4294967295⟩).integer = .ok column := by
  have hserial : findTarget [core, tenant] tenant "fixed.t.id" = .ok ⟨core, serials, serial⟩ := by
    cbv
  have hreference : findTarget [core, tenant] tenant "t.id" =
      .ok ⟨tenant, references, reference⟩ := by cbv
  have hvalidate : serial.validate =
      .ok ⟨"id", false, none, .serial .regular ⟨1, 4294967295⟩, none⟩ := by cbv
  have hresolve : resolve [core, tenant] tenant reference = .ok referenceColumn := by cbv
  have hcycle : ∃ e, resolve [core, tenant] tenant hop = .error e := ⟨_, by cbv⟩
  refine ⟨.next rfl hreference rfl (by decide) hresolve
    (.last rfl hserial rfl (by decide) hvalidate rfl), ?_, ?_, _, by cbv⟩
  · intro text htext
    cases htext
  · obtain ⟨e, he⟩ := hcycle
    simp [he]

end Namesakes

end ForeignKey

end SchemaCompiler
