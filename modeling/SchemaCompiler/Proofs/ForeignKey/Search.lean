import SchemaCompiler.Proofs.ForeignKey.Resolution

/-! # How deep the search for a target goes

The search below is told how deep it may go, and it remembers the targets that it has entered by the texts
of their places. What a path names holds no dot, so that the texts tell these places apart, even where a
database has dots in its name. Every target is entered once at most, and a depth of one more than there are
columns ends every search. -/

namespace SchemaCompiler

/-! ## Texts of places -/

/-- A target that some path leads to. -/
structure Target.Pathed (databases : List DatabaseDeclaration) (t : Target) : Prop
    extends Target.Declared databases t where
  table_undotted : '.' ∉ t.table.name.toList
  column_undotted : '.' ∉ t.column.name.toList

theorem findTarget_pathed {databases : List DatabaseDeclaration} {home : DatabaseDeclaration}
    {path : String} {t : Target} (hhome : home ∈ databases)
    (h : findTarget databases home path = .ok t) : t.Pathed databases := by
  have hpieces : ∀ piece ∈ Text.dotted path, '.' ∉ piece.toList :=
    fun _ => Text.dot_notMem_of_mem_dotted
  obtain ⟨_, _, ⟨hpath, hfind⟩ | ⟨_, _, hpath, hdatabase, hfind⟩⟩ := findTarget_eq_ok.mp h
  · obtain ⟨hdeclared, rfl, rfl⟩ := Target.find_declared hhome hfind
    exact ⟨hdeclared, hpieces _ (by simp [hpath]), hpieces _ (by simp [hpath])⟩
  · obtain ⟨hdeclared, rfl, rfl⟩ := Target.find_declared (findDatabase_eq_ok hdatabase).1 hfind
    exact ⟨hdeclared, hpieces _ (by simp [hpath]), hpieces _ (by simp [hpath])⟩

/-- The table and the column are the last two pieces of a place's text. -/
theorem Target.Pathed.dotted_text {databases : List DatabaseDeclaration} {t : Target}
    (h : t.Pathed databases) : Text.dotted t.location.text =
      Text.dotted t.database.name ++ [t.table.name, t.column.name] := by
  have htext : t.location.text =
      t.database.name ++ "." ++ t.table.name ++ "." ++ t.column.name := rfl
  rw [htext, Text.dotted_append_dot, Text.dotted_append_dot, Text.dotted_of_undotted h.table_undotted,
    Text.dotted_of_undotted h.column_undotted, List.append_assoc]
  rfl

/-- Targets that paths lead to lie in one place if its text is the same. -/
theorem Target.Pathed.location_eq_iff {databases : List DatabaseDeclaration} {t u : Target}
    (ht : t.Pathed databases) (hu : u.Pathed databases) :
    t.location = u.location ↔ t.location.text = u.location.text := by
  refine ⟨congrArg Location.text, fun htext => ?_⟩
  have hpieces := congrArg Text.dotted htext
  rw [ht.dotted_text, hu.dotted_text] at hpieces
  obtain ⟨hdatabase, hnames⟩ := List.append_inj' hpieces rfl
  have hjoined := congrArg (".".intercalate ·) hdatabase
  simp only [Text.intercalate_dotted] at hjoined
  simp only [List.cons.injEq, and_true] at hnames
  simp only [location, hjoined, hnames]

namespace ForeignKey

/-! ## The search -/

/-- A search down to some depth. It lists the targets that it enters and gives what it finds. -/
def search (databases : List DatabaseDeclaration) : (depth : Nat) → (visited : List String) →
    DatabaseDeclaration → ColumnDeclaration → Option (List Target × Except Failure Column)
  | 0, _, _, _ => none
  | depth + 1, visited, home, c =>
    match c.path with
    | none => some ([], .error { subject := .missingReferencePath })
    | some path =>
      match findTarget databases home path with
      | .error f => some ([], .error { subject := f })
      | .ok t =>
        if t.location.text ∈ visited then
          some ([], .error { subject := .referenceCycle t.location })
        else
          let below :=
            if t.column.isReference then
              search databases depth (t.location.text :: visited) t.database t.column
            else
              some ([], Failure.unplaced t.column.validate)
          below.map fun (entered, resolved) => (t :: entered, do
            let column ← Failure.within t.location resolved
            Failure.unplaced (c.refer home path t column))

variable {databases : List DatabaseDeclaration} {unvisited remaining : List Location}
  {visited : List String} {home : DatabaseDeclaration} {c : ColumnDeclaration} {depth : Nat}
  {entered : List Target} {result : Except Failure Column}

/-! ## Targets are entered once -/

/-- The targets that a search lists are declared, and lie in different places that were not visited before. -/
structure Enters (databases : List DatabaseDeclaration) (visited : List String)
    (entered : List Target) : Prop where
  pathed : ∀ t ∈ entered, t.Pathed databases
  fresh : ∀ t ∈ entered, t.location.text ∉ visited
  nodup : (entered.map (·.location.text)).Nodup

theorem Enters.nil : Enters databases visited [] := ⟨by simp, by simp, by simp⟩

theorem Enters.cons {t : Target} (ht : t.Pathed databases) (hfresh : t.location.text ∉ visited)
    (h : Enters databases (t.location.text :: visited) entered) :
    Enters databases visited (t :: entered) where
  pathed := List.forall_mem_cons.mpr ⟨ht, h.pathed⟩
  fresh := List.forall_mem_cons.mpr
    ⟨hfresh, fun u hu hvisited => h.fresh u hu (List.mem_cons_of_mem _ hvisited)⟩
  nodup := by
    rw [List.map_cons, List.nodup_cons]
    refine ⟨fun hmem => ?_, h.nodup⟩
    obtain ⟨u, hu, htext⟩ := List.mem_map.mp hmem
    exact h.fresh u hu (by simp [htext])

/-! ## Both searches agree -/

/-- The places that the resolver has not visited are those whose texts are not known yet, and all of them
are listed. -/
structure Tracks (databases : List DatabaseDeclaration) (unvisited remaining : List Location)
    (visited : List String) : Prop where
  mem_iff : ∀ t : Target, t.Pathed databases → (t.location ∈ unvisited ↔ t.location.text ∉ visited)
  listed : ∀ t : Target, t.Pathed databases → t.location ∈ unvisited → t.location ∈ remaining

theorem Tracks.enter (h : Tracks databases unvisited remaining visited) {t : Target}
    (ht : t.Pathed databases) : Tracks databases (strike t.location unvisited)
      (strike t.location remaining) (t.location.text :: visited) where
  mem_iff u hu := by
    rw [mem_strike, h.mem_iff u hu, ne_eq, hu.location_eq_iff ht, List.mem_cons, not_or, and_comm]
  listed u hu hmem := by
    rw [mem_strike] at hmem ⊢
    exact ⟨h.listed u hu hmem.1, hmem.2⟩

theorem tracks_places (home : DatabaseDeclaration) :
    Tracks databases (places (home :: databases)) (places databases) [] where
  mem_iff t ht := by
    have hmem := mem_places_cons ht.toDeclared home
    simp [hmem]
  listed _ ht _ := mem_places ht.toDeclared

/-- A search that may go deeper than there are places left ends like the resolver. -/
theorem search_eq_resolveFrom (hhome : home ∈ databases)
    (htracks : Tracks databases unvisited remaining visited) (hdepth : remaining.length < depth) :
    ∃ entered, search databases depth visited home c =
        some (entered, resolveFrom databases unvisited home c) ∧
      Enters databases visited entered := by
  induction depth generalizing unvisited remaining visited home c with
  | zero => exact absurd hdepth (Nat.not_lt_zero _)
  | succ depth ih =>
      cases hpath : c.path with
      | none => exact ⟨[], by rw [search, resolveFrom, hpath], .nil⟩
      | some path =>
          cases hfind : findTarget databases home path with
          | error f => exact ⟨[], by simp only [search, resolveFrom, hpath, hfind], .nil⟩
          | ok t =>
              have ht := findTarget_pathed hhome hfind
              rw [resolveFrom_of_target hpath hfind]
              by_cases hvisited : t.location.text ∈ visited
              · have hmem : t.location ∉ unvisited := fun hmem => (htracks.mem_iff t ht).mp hmem hvisited
                refine ⟨[], ?_, .nil⟩
                simp only [search, hpath, hfind, hvisited, hmem, if_true, if_false]
              · have hmem : t.location ∈ unvisited := (htracks.mem_iff t ht).mpr hvisited
                have hshorter := length_strike_lt (htracks.listed t ht hmem)
                by_cases hkind : t.column.isReference
                · -- the place of the target is struck out of the list, which allows for the depth below it
                  obtain ⟨entered, hbelow, henters⟩ := ih (c := t.column) ht.database
                    (htracks.enter ht) (by omega)
                  refine ⟨t :: entered, ?_, .cons ht hvisited henters⟩
                  simp only [search, hpath, hfind, hvisited, hmem, hkind, hbelow, enter, if_true,
                    if_false, Option.map_some]
                · refine ⟨[t], ?_, .cons ht hvisited .nil⟩
                  simp only [search, hpath, hfind, hvisited, hmem, hkind, enter, if_true, if_false,
                    Option.map_some, Bool.false_eq_true]

end ForeignKey

end SchemaCompiler
