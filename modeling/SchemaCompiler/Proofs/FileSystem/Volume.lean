import SchemaCompiler.FileSystem.Volume
import SchemaCompiler.Proofs.FileSystem.Path

/-! # Places and operations of volumes -/

namespace SchemaCompiler

namespace Volume

variable {current : Place}

/-! ## Places -/

theorem advance_of_plain {origin : Place} {name : String} (h : Path.Plain name) :
    advance origin name = origin ++ [name] := by
  simp [advance, h.ne_empty, h.ne_dot, h.ne_dots]

/-- Segments that do not count lead nowhere. -/
theorem foldl_advance_dropIdle (origin : Place) (pieces : List String) :
    (Path.dropIdle pieces).reverse.foldl advance origin = pieces.reverse.foldl advance origin := by
  fun_induction Path.dropIdle pieces with
  | case1 => rfl
  | case2 => simp [advance]
  | case3 => rfl
  | case4 piece rest _ h ih =>
      rw [ih, List.reverse_cons, List.foldl_append]
      simp [advance, h]
  | case5 => rfl

/-- A name in a directory lies in the place of the directory. -/
theorem place_join {directory name : String} (h : Path.Plain name) :
    place current (Path.join directory name) = place current directory ++ [name] := by
  obtain ⟨front, hpieces, ⟨rfl, rfl⟩ | ⟨habsolute, hfront⟩⟩ := Path.pieces_join directory h
  · have hempty : place current "" = current := rfl
    have hjoin : Path.join "" name = name := by simp [Path.join, h.not_isAbsolute]
    rw [hjoin] at hpieces ⊢
    rw [hempty, place, hpieces, h.not_isAbsolute]
    exact advance_of_plain h
  · have hsame : place current directory =
        front.foldl advance (if Path.isAbsolute directory then [] else current) := by
      rcases hfront with hfront | hfront
      · rw [place, hfront]
      · rw [place, hfront, List.foldl_append]
        rfl
    rw [place, hpieces, habsolute, hsame, List.foldl_append]
    exact advance_of_plain h

/-- The parent of a path leads to where the path leads without its last name. -/
theorem place_parent {path name : String} {front : List String} (h : Path.Plain name)
    (hpieces : Path.pieces path = front ++ [name]) :
    place current (Path.ofReversed (Path.isAbsolute path) (Path.dropIdle front.reverse)) =
      front.foldl advance (if Path.isAbsolute path then [] else current) := by
  have hfold := foldl_advance_dropIdle (if Path.isAbsolute path then [] else current) front.reverse
  rw [List.reverse_reverse] at hfold
  rw [← hfold]
  cases hsegments : Path.dropIdle front.reverse with
  | nil => cases Path.isAbsolute path <;> rfl
  | cons segment rest =>
      have hne : Path.dropIdle front.reverse ≠ [] := by simp [hsegments]
      have hfree : ∀ segment ∈ Path.dropIdle front.reverse, '/' ∉ segment.toList := by
        intro segment hsegment
        apply Path.slash_notMem_of_mem_pieces path
        rw [hpieces]
        simp [List.mem_reverse.mp ((Path.dropIdle_suffix _).subset hsegment)]
      rw [← hsegments, place, Path.pieces_ofReversed hne hfree, Path.isAbsolute_parent h hpieces hne]

/-- Another last name lies in the same directory. -/
theorem place_withFileName {directory name other : String} (h : Path.Plain name)
    (hother : Path.Plain other) :
    place current (Path.withFileName (Path.join directory name) other) =
      place current directory ++ [other] := by
  obtain ⟨front, hpieces, -⟩ := Path.pieces_join directory h
  obtain ⟨hname, hparent⟩ := Path.parts_of_pieces h hpieces
  have hplace : place current (Path.join directory name) = place current directory ++ [name] :=
    place_join h
  rw [place, hpieces, List.foldl_append, List.foldl_cons, List.foldl_nil, advance_of_plain h] at hplace
  rw [Path.withFileName, hname, hparent]
  simp only [Option.getD_some]
  rw [place_join hother, place_parent h hpieces, List.append_cancel_right hplace]

/-! ## Entries -/

/-- Where there is no directory, there is nothing or a file. -/
theorem none_or_file {entry : Option Entry} (h : entry ≠ some .directory) :
    entry = none ∨ ∃ contents, entry = some (.file contents) := by
  cases entry with
  | none => exact .inl rfl
  | some entry =>
      cases entry with
      | file contents => exact .inr ⟨contents, rfl⟩
      | directory => exact absurd rfl h

namespace Entries

variable {e : Entries} {base p : Place} {name : String}

@[simp] theorem at?_inner : e.at? (base ++ [name]) = e (base ++ [name]) := by
  simp [at?]

theorem accept_eq_ok :
    e.accept p = .ok () ↔ e.at? p.dropLast = some .directory ∧ e.at? p ≠ some .directory := by
  unfold accept
  split
  · next h => simp [h]
  · next h => simp [h]
  · next h => simp [h]

/-- In a directory a file may lie wherever there is no directory. -/
theorem accept_inner (hbase : e.at? base = some .directory) :
    e.accept (base ++ [name]) = .ok () ↔ e (base ++ [name]) ≠ some .directory := by
  rw [accept_eq_ok, List.dropLast_concat, at?_inner]
  simp [hbase]

theorem move_eq_ok {source target : Place} {e' : Entries} : e.move source target = .ok e' ↔
    ∃ contents, e.at? source = some (.file contents) ∧ e.accept target = .ok () ∧
      Function.update (Function.update e source none) target (some (.file contents)) = e' := by
  unfold move
  split
  · next h => simp [h]
  · next h => simp [h]
  · next contents h =>
      split
      · next haccept => simp [haccept]
      · next haccept => simp [h, haccept]

end Entries

/-! ## Operations -/

variable {v : Volume current}

@[simp] theorem leave_entries {e : Entries} : (v.leave e).entries = e := rfl

/-- What a write may come to. -/
inductive Written (v : Volume current) (p : Place) (contents : ByteArray) :
    Except IoError Unit × Volume current → Prop where
  | done (haccept : v.entries.accept p = .ok ()) :
      Written v p contents (.ok (), v.leave (Function.update v.entries p (some (.file contents))))
  | refused (error : IoError) : Written v p contents (.error error, v.leave v.entries)
  | broken (haccept : v.entries.accept p = .ok ()) (error : IoError) (remains : ByteArray) :
      Written v p contents
        (.error error, v.leave (Function.update v.entries p (some (.file remains))))

theorem write_written (path contents : String) :
    Written v (place current path) contents.toUTF8 (v.write path contents) := by
  simp only [write]
  split
  · exact .refused _
  · exact .refused _
  · next haccept _ => exact .broken haccept _ _
  · next haccept _ => exact .done haccept

/-- A move between two places is refused, or moves the file. -/
theorem rename_cases {source target : String} {p q : Place} (hsource : place current source = p)
    (htarget : place current target = q) :
    (∃ error, v.rename source target = (.error error, v.leave v.entries)) ∨
      ∃ e, v.entries.move p q = .ok e ∧ v.rename source target = (.ok (), v.leave e) := by
  rw [rename, hsource, htarget]
  split
  · exact .inl ⟨_, rfl⟩
  · exact .inl ⟨_, rfl⟩
  · next hmove => exact .inr ⟨_, hmove, rfl⟩

/-- A file is moved back wherever a file may lie. -/
theorem restore_entries {source target : String} {e : Entries}
    (h : v.entries.move (place current source) (place current target) = .ok e) :
    (v.restore source target).entries = e := by
  rw [restore, h]

/-- Behind a removal there is nothing, unless there is a directory. -/
theorem remove_entries {path name : String} {base : Place} (hplace : place current path = base ++ [name])
    (hfile : v.entries (base ++ [name]) ≠ some .directory) :
    (v.remove path).entries = Function.update v.entries (base ++ [name]) none := by
  simp only [remove, hplace, Entries.at?_inner]
  rcases none_or_file hfile with hnone | ⟨contents, hcontents⟩
  · simp only [hnone]
    rw [← hnone, Function.update_eq_self]
  · simp only [hcontents]

/-! ## Programs -/

section Programs

variable {α β : Type} (v)

theorem run_bind (program : StateM (Volume current) α) (next : α → StateM (Volume current) β) :
    v.run (program >>= next) = (v.run program).2.run (next (v.run program).1) := rfl

@[simp] theorem run_write (path contents : String) :
    v.run (FileStore.write path contents) = v.write path contents := rfl

@[simp] theorem run_rename (source target : String) :
    v.run (FileStore.rename source target) = v.rename source target := rfl

@[simp] theorem run_isFile (path : String) : v.run (FileStore.isFile path) = (v.isFile path, v) := rfl

end Programs

end Volume

end SchemaCompiler
