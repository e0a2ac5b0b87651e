import SchemaCompiler.Proofs.FileSystem.Disk
import SchemaCompiler.Proofs.FileSystem.Path
import SchemaCompiler.Proofs.Outcome

/-! # Where paths lead

Paths are walked over directories and links. As long as these stay, a path leads where it led, whatever
becomes of the files. -/

namespace SchemaCompiler

namespace Disk

/-! ## Walks -/

/-- A segment that a directory may hold an entry for. -/
structure Segment (name : String) : Prop where
  ne_dot : name ≠ "."
  ne_dots : name ≠ ".."
  length : name.utf8ByteSize ≤ maxName

theorem segment_iff {name : String} :
    Segment name ↔ name ≠ "." ∧ name ≠ ".." ∧ name.utf8ByteSize ≤ maxName :=
  ⟨fun h => ⟨h.ne_dot, h.ne_dots, h.length⟩, fun ⟨h, h₁, h₂⟩ => ⟨h, h₁, h₂⟩⟩

instance (name : String) : Decidable (Segment name) :=
  decidable_of_iff _ segment_iff.symm

/-- Where a walk may end: at nothing, at a file or at a link that is not followed. -/
inductive Ending (d : Disk) (follow : Bool) (p : Place) : Prop where
  | nothing (h : d.entry? p = none)
  | file {contents} (h : d.entry? p = some (.file contents))
  | link {target} (h : d.entry? p = some (.link target)) (hfollow : follow = false)

/-- Walks that succeed. -/
inductive Walks (d : Disk) (follow : Bool) : Nat → Place → List String → Place → Prop where
  | here {links : Nat} {p : Place} : Walks d follow links p [] p
  | dot {links origin rest p} (h : Walks d follow links origin rest p) :
      Walks d follow links origin ("." :: rest) p
  | dots {links origin rest p} (h : Walks d follow links origin.dropLast rest p) :
      Walks d follow links origin (".." :: rest) p
  | last {links origin name} (hname : Segment name) (hend : Ending d follow (origin ++ [name])) :
      Walks d follow links origin [name] (origin ++ [name])
  | inside {links origin name rest p} (hname : Segment name)
      (hentry : d.entry? (origin ++ [name]) = some .directory)
      (h : Walks d follow links (origin ++ [name]) rest p) : Walks d follow links origin (name :: rest) p
  | link {links origin name target rest p} (hname : Segment name)
      (hentry : d.entry? (origin ++ [name]) = some (.link target)) (hfollow : rest ≠ [] ∨ follow = true)
      (h : Walks d follow links (if Path.isAbsolute target then [] else origin)
        (steps target ++ rest) p) : Walks d follow (links + 1) origin (name :: rest) p

variable {d d' : Disk} {p q base start : Place} {name path directory : String} {follow : Bool}
  {links : Nat} {segments more : List String}

theorem Walks.walk_eq (h : Walks d follow links start segments p) :
    d.walk follow links start segments = .ok p := by
  induction h with
  | here => rw [walk]
  | dot _ ih => rw [walk, if_pos rfl, ih]
  | dots _ ih => rw [walk, if_neg (by decide), if_pos rfl, ih]
  | last hname hend =>
      rw [walk, if_neg hname.ne_dot, if_neg hname.ne_dots, if_neg (Nat.not_lt.mpr hname.length)]
      cases hend with
      | nothing h => simp [h]
      | file h => simp [h]
      | link h hfollow => simp [h, hfollow]
  | inside hname hentry _ ih =>
      rw [walk, if_neg hname.ne_dot, if_neg hname.ne_dots, if_neg (Nat.not_lt.mpr hname.length)]
      simp only [hentry, ih]
  | link hname hentry hfollow _ ih =>
      rw [walk, if_neg hname.ne_dot, if_neg hname.ne_dots, if_neg (Nat.not_lt.mpr hname.length)]
      rcases hfollow with hrest | rfl
      · simp only [hentry, hrest, false_and, if_false, ih]
      · simp only [hentry, Bool.true_eq_false, and_false, if_false, ih]

theorem walks_of_walk (h : d.walk follow links start segments = .ok p) :
    Walks d follow links start segments p := by
  fun_induction walk d follow links start segments with
  | case1 =>
      cases h
      exact .here
  | case2 links origin rest ih => exact .dot (ih h)
  | case3 links origin rest _ ih => exact .dots (ih h)
  | case4 => cases h
  | case5 links origin name hdot hdots hlength place hentry =>
      rw [← Except.ok.inj h]
      exact .last ⟨hdot, hdots, Nat.not_lt.mp hlength⟩ (.nothing hentry)
  | case6 => cases h
  | case7 links origin name rest hdot hdots hlength place hentry ih =>
      exact .inside ⟨hdot, hdots, Nat.not_lt.mp hlength⟩ hentry (ih h)
  | case8 links origin name hdot hdots hlength place contents hentry =>
      rw [← Except.ok.inj h]
      exact .last ⟨hdot, hdots, Nat.not_lt.mp hlength⟩ (.file hentry)
  | case9 => cases h
  | case10 links origin name rest hdot hdots hlength place target hentry hstops =>
      rw [← Except.ok.inj h]
      obtain ⟨rfl, hfollow⟩ := hstops
      exact .last ⟨hdot, hdots, Nat.not_lt.mp hlength⟩ (.link hentry hfollow)
  | case11 => cases h
  | case12 origin name rest hdot hdots hlength place target hentry hgoes links ih =>
      have hfollow : rest ≠ [] ∨ follow = true := by
        by_cases hrest : rest = []
        · exact .inr (by simpa [hrest] using hgoes)
        · exact .inl hrest
      exact .link ⟨hdot, hdots, Nat.not_lt.mp hlength⟩ hentry hfollow (by simpa using ih h)

theorem walk_eq_ok : d.walk follow links start segments = .ok p ↔
    Walks d follow links start segments p :=
  ⟨walks_of_walk, Walks.walk_eq⟩

/-- A walk into a directory goes on from there. -/
theorem Walks.append (h : Walks d true links start segments base) (follow : Bool)
    (hbase : d.entry? base = some .directory) (hmore : more ≠ []) :
    ∃ links', ∀ {p}, Walks d follow links' base more p →
      Walks d follow links start (segments ++ more) p := by
  induction h with
  | here => exact ⟨_, id⟩
  | dot _ ih =>
      obtain ⟨links', hgo⟩ := ih hbase
      exact ⟨links', fun h => .dot (hgo h)⟩
  | dots _ ih =>
      obtain ⟨links', hgo⟩ := ih hbase
      exact ⟨links', fun h => .dots (hgo h)⟩
  | last hname hend => cases hend <;> simp_all
  | inside hname hentry _ ih =>
      obtain ⟨links', hgo⟩ := ih hbase
      exact ⟨links', fun h => .inside hname hentry (hgo h)⟩
  | link hname hentry hfollow _ ih =>
      obtain ⟨links', hgo⟩ := ih hbase
      refine ⟨links', fun h => .link hname hentry (.inl ?_) ?_⟩
      · simp [hmore]
      · have hwalks := hgo h
        rwa [List.append_assoc] at hwalks

/-- A dot at the end leads nowhere. -/
theorem Walks.of_append_dot (h : Walks d true links start (segments ++ ["."]) p) :
    Walks d true links start segments p := by
  generalize hall : segments ++ ["."] = all at h
  induction h generalizing segments with
  | here => simp at hall
  | dot h ih =>
      cases segments with
      | nil =>
          cases hall
          exact h
      | cons =>
          cases hall
          exact .dot (ih rfl)
  | dots h ih =>
      cases segments with
      | nil => simp at hall
      | cons =>
          cases hall
          exact .dots (ih rfl)
  | last hname hend =>
      cases segments with
      | nil =>
          cases hall
          exact absurd rfl hname.ne_dot
      | cons => simp at hall
  | inside hname hentry h ih =>
      cases segments with
      | nil =>
          cases hall
          exact absurd rfl hname.ne_dot
      | cons =>
          cases hall
          exact .inside hname hentry (ih rfl)
  | link hname hentry hfollow h ih =>
      cases segments with
      | nil =>
          cases hall
          exact absurd rfl hname.ne_dot
      | cons segment segments =>
          cases hall
          exact .link hname hentry (.inr rfl) (ih (List.append_assoc _ _ _))

/-- A walk ends in a directory. -/
theorem Walks.directory_dropLast (h : Walks d follow links start segments p) (hrooted : d.Rooted)
    (hstart : d.entry? start = some .directory) : d.entry? p.dropLast = some .directory := by
  have hup : ∀ {q}, d.entry? q = some .directory → d.entry? q.dropLast = some .directory := by
    intro q hq
    cases q using List.reverseRecOn with
    | nil => rfl
    | append_singleton q name =>
        rw [List.dropLast_concat]
        exact hrooted q name (by simp [hq])
  induction h with
  | here => exact hup hstart
  | dot _ ih => exact ih hstart
  | dots _ ih => exact ih (hup hstart)
  | last => rwa [List.dropLast_concat]
  | inside _ hentry _ ih => exact ih hentry
  | link _ _ _ _ ih =>
      apply ih
      split
      · rfl
      · exact hstart

/-! ## Disks on which paths lead to the same places -/

/-- Directories stay, and so do links. -/
structure Keeps (d d' : Disk) : Prop where
  current : d'.current = d.current
  directory : ∀ p, d.entry? p = some .directory → d'.entry? p = some .directory
  link : ∀ p target, d'.entry? p = some (.link target) ↔ d.entry? p = some (.link target)

theorem Walks.keep (h : Walks d follow links start segments p) (hkeeps : Keeps d d') :
    Walks d' follow links start segments p := by
  induction h with
  | here => exact .here
  | dot _ ih => exact .dot ih
  | dots _ ih => exact .dots ih
  | @last links origin name hname hend =>
      have hnot : ∀ target, d'.entry? (origin ++ [name]) = some (.link target) → follow = false := by
        intro target htarget
        rw [hkeeps.link] at htarget
        cases hend with
        | nothing h => simp [h] at htarget
        | file h => simp [h] at htarget
        | link h hfollow => exact hfollow
      cases hentry : d'.entry? (origin ++ [name]) with
      | none => exact .last hname (.nothing hentry)
      | some e =>
          cases e with
          | file => exact .last hname (.file hentry)
          | directory => exact .inside hname hentry .here
          | link target => exact .last hname (.link hentry (hnot target hentry))
  | inside hname hentry _ ih => exact .inside hname (hkeeps.directory _ hentry) ih
  | link hname hentry hfollow _ ih => exact .link hname ((hkeeps.link _ _).mpr hentry) hfollow ih

/-! ## Paths -/

/-- Where a path starts. -/
def origin (d : Disk) (path : String) : Place :=
  if Path.isAbsolute path then [] else d.current

/-- What a path has to be before it is walked. -/
def vet (path : String) : Except IoError Unit :=
  if path.toList.contains '\x00' then .error .nulByte
  else if path = "" then .error .notFound
  else if maxPath < path.utf8ByteSize then .error .nameTooLong
  else .ok ()

theorem vet_eq_ok : vet path = .ok () ↔
    '\x00' ∉ path.toList ∧ path ≠ "" ∧ path.utf8ByteSize ≤ maxPath := by
  rw [vet, ← Nat.not_lt]
  by_cases hnul : '\x00' ∈ path.toList
  · simp [hnul]
  · by_cases hempty : path = ""
    · simp [hempty]
    · by_cases hlong : maxPath < path.utf8ByteSize <;> simp [hnul, hempty, hlong]

theorem resolve_eq (d : Disk) (follow : Bool) (path : String) : d.resolve follow path =
    vet path >>= fun _ => d.walk follow maxLinks (d.origin path) (steps path) := by
  unfold resolve vet
  split
  · rfl
  · split
    · rfl
    · split <;> rfl

theorem resolve_eq_ok : d.resolve follow path = .ok p ↔
    vet path = .ok () ∧ Walks d follow maxLinks (d.origin path) (steps path) p := by
  rw [resolve_eq, bind_eq_ok]
  constructor
  · rintro ⟨⟨⟩, hvet, hwalk⟩
    exact ⟨hvet, walk_eq_ok.mp hwalk⟩
  · rintro ⟨hvet, hwalks⟩
    exact ⟨(), hvet, hwalks.walk_eq⟩

/-- A path leads to a directory. -/
structure DirectoryAt (d : Disk) (path : String) (base : Place) : Prop where
  walks : Walks d true maxLinks (d.origin path) (steps path) base
  directory : d.entry? base = some .directory

theorem DirectoryAt.keep (h : d.DirectoryAt path base) (hkeeps : Keeps d d') :
    d'.DirectoryAt path base where
  walks := by
    have hwalks := h.walks.keep hkeeps
    simpa only [origin, hkeeps.current] using hwalks
  directory := hkeeps.directory _ h.directory

theorem steps_join (hne : name ≠ "") (hslash : '/' ∉ name.toList) :
    steps (Path.join directory name) = steps directory ++ [name] := by
  obtain ⟨front, hpieces, ⟨rfl, rfl⟩ | ⟨-, hfront⟩⟩ :=
    Path.pieces_join_of_slash_notMem directory hslash
  · have hempty : steps "" = [] := rfl
    rw [hempty, steps, hpieces]
    simp [hne]
  · have hsame : steps directory = front.filter (· ≠ "") := by
      rcases hfront with hfront | hfront
      · rw [steps, hfront]
      · rw [steps, hfront, List.filter_append]
        simp
    rw [steps, hpieces, List.filter_append, hsame]
    simp [hne]

theorem origin_join (hslash : '/' ∉ name.toList) :
    d.origin (Path.join directory name) = d.origin directory := by
  have hname := Path.isAbsolute_of_slash_notMem hslash
  obtain ⟨-, -, ⟨-, rfl⟩ | ⟨habsolute, -⟩⟩ := Path.pieces_join_of_slash_notMem directory hslash
  · have hjoin : Path.join "" name = name := by simp [Path.join, hname]
    rw [hjoin, origin, hname]
    rfl
  · rw [origin, origin, habsolute]

theorem steps_of_plain (h : Path.Plain name) : steps name = [name] := by
  rw [steps, Path.pieces_of_slash_notMem h.slash_notMem]
  simp [h.ne_empty]

/-- A directory in the current one is found by its name. -/
theorem directoryAt_of_plain (hplain : Path.Plain name) (hname : Segment name)
    (hentry : d.entry? (d.current ++ [name]) = some .directory) :
    d.DirectoryAt name (d.current ++ [name]) := by
  refine ⟨?_, hentry⟩
  rw [steps_of_plain hplain, origin, hplain.not_isAbsolute]
  exact .inside hname hentry .here

/-- Segments that do not count are not missed. -/
theorem Walks.dropIdle {pieces : List String}
    (h : Walks d true links start (pieces.reverse.filter (· ≠ "")) p) :
    Walks d true links start ((Path.dropIdle pieces).reverse.filter (· ≠ "")) p := by
  fun_induction Path.dropIdle pieces with
  | case1 => exact h
  | case2 => exact h
  | case3 => exact h
  | case4 piece rest _ hidle ih =>
      apply ih
      rw [List.reverse_cons, List.filter_append] at h
      rcases hidle with rfl | rfl
      · simpa using h
      · exact h.of_append_dot
  | case5 => exact h

/-- Where the path of the directory starts, and its steps. -/
theorem origin_steps_parent {front : List String} (hname : Path.Plain name)
    (hpieces : Path.pieces path = front ++ [name]) :
    d.origin (Path.ofReversed (Path.isAbsolute path) (Path.dropIdle front.reverse)) = d.origin path ∧
      steps (Path.ofReversed (Path.isAbsolute path) (Path.dropIdle front.reverse)) =
        (Path.dropIdle front.reverse).reverse.filter (· ≠ "") := by
  by_cases hnil : Path.dropIdle front.reverse = []
  · rw [hnil, origin, origin]
    cases Path.isAbsolute path <;> exact ⟨rfl, rfl⟩
  · have hfree : ∀ segment ∈ Path.dropIdle front.reverse, '/' ∉ segment.toList := by
      intro segment hsegment
      apply Path.slash_notMem_of_mem_pieces path
      rw [hpieces]
      simp [List.mem_reverse.mp ((Path.dropIdle_suffix _).subset hsegment)]
    rw [origin, origin, Path.isAbsolute_parent hname hpieces hnil, steps,
      Path.pieces_ofReversed hnil hfree]
    exact ⟨rfl, rfl⟩

/-- Another last name lies in the same directory. -/
theorem DirectoryAt.withFileName (h : d.DirectoryAt directory base) (hname : Path.Plain name)
    (other : String) : ∃ parent,
      Path.withFileName (Path.join directory name) other = Path.join parent other ∧
        d.DirectoryAt parent base := by
  obtain ⟨front, hpieces, -⟩ := Path.pieces_join directory hname
  obtain ⟨hfile, hparent⟩ := Path.parts_of_pieces hname hpieces
  have hsteps : steps (Path.join directory name) = steps directory ++ [name] :=
    steps_join hname.ne_empty hname.slash_notMem
  obtain ⟨hparentOrigin, hparentSteps⟩ := origin_steps_parent (d := d) hname hpieces
  refine ⟨Path.ofReversed (Path.isAbsolute (Path.join directory name)) (Path.dropIdle front.reverse),
    ?_, ?_, h.directory⟩
  · rw [Path.withFileName, hfile, hparent]
    rfl
  · rw [hparentOrigin, hparentSteps, origin_join hname.slash_notMem]
    apply Walks.dropIdle
    have hsame : steps directory = front.reverse.reverse.filter (· ≠ "") := by
      rw [steps, hpieces, List.filter_append] at hsteps
      rw [List.reverse_reverse]
      simpa [hname.ne_empty] using hsteps.symm
    exact hsame ▸ h.walks

/-! ## Names in a directory -/

/-- Nothing or a file lies at a place. -/
def Loose (d : Disk) (p : Place) : Prop :=
  d.entry? p = none ∨ ∃ contents, d.entry? p = some (.file contents)

/-- A path leads to a place for a file: there is a file, or nothing. -/
def Available (d : Disk) (path : String) : Prop :=
  ∃ p, d.resolve false path = .ok p ∧ d.Loose p

/-- What the operations on a file need to know about a path to it. -/
structure Reaches (d : Disk) (path : String) (p : Place) : Prop where
  resolve : ∀ follow, d.resolve follow path = .ok p
  loose : d.Loose p
  slash : endsInSlash path = false
  dots : endsInDots path = false

theorem Walks.segment (h : Walks d follow links start segments p) :
    ∀ name ∈ segments, name = "." ∨ name = ".." ∨ Segment name := by
  induction h with
  | here => simp
  | dot _ ih => simpa using ih
  | dots _ ih => simpa using ih
  | last hname _ => simpa using .inr (.inr hname)
  | inside hname _ _ ih => simpa [hname] using ih
  | link hname _ _ _ ih =>
      intro name hmem
      rcases List.mem_cons.mp hmem with rfl | hmem
      · exact .inr (.inr hname)
      · exact ih name (List.mem_append_right _ hmem)

/-- A name that is not too long can be looked for in a directory, unless there is a link to follow. -/
theorem walks_singleton (hname : Segment name)
    (hlink : ∀ target, d.entry? (base ++ [name]) = some (.link target) → follow = false) :
    Walks d follow links base [name] (base ++ [name]) := by
  cases hentry : d.entry? (base ++ [name]) with
  | none => exact .last hname (.nothing hentry)
  | some e =>
      cases e with
      | file => exact .last hname (.file hentry)
      | directory => exact .inside hname hentry .here
      | link target => exact .last hname (.link hentry (hlink target hentry))

theorem Loose.not_link (h : d.Loose p) (target : String) : d.entry? p ≠ some (.link target) := by
  rcases h with h | ⟨contents, h⟩ <;> simp [h]

theorem Loose.not_directory (h : d.Loose p) : d.entry? p ≠ some .directory := by
  rcases h with h | ⟨contents, h⟩ <;> simp [h]

/-- A name in a directory leads to its place there. -/
theorem DirectoryAt.walks_join (h : d.DirectoryAt directory base) (follow : Bool)
    (hplain : Path.Plain name) (hname : Segment name)
    (hlink : ∀ target, d.entry? (base ++ [name]) = some (.link target) → follow = false) :
    Walks d follow maxLinks (d.origin (Path.join directory name)) (steps (Path.join directory name))
      (base ++ [name]) := by
  obtain ⟨links, hgo⟩ := h.walks.append follow h.directory (List.cons_ne_nil name [])
  rw [steps_join hplain.ne_empty hplain.slash_notMem, origin_join hplain.slash_notMem]
  exact hgo (walks_singleton hname hlink)

theorem DirectoryAt.resolve_join (h : d.DirectoryAt directory base) (follow : Bool)
    (hplain : Path.Plain name) (hname : Segment name) (hvet : vet (Path.join directory name) = .ok ())
    (hlink : ∀ target, d.entry? (base ++ [name]) = some (.link target) → follow = false) :
    d.resolve follow (Path.join directory name) = .ok (base ++ [name]) :=
  resolve_eq_ok.mpr ⟨hvet, h.walks_join follow hplain hname hlink⟩

/-- A name in a directory is available where nothing or a file lies, unless its path is too long. -/
theorem DirectoryAt.available_join (h : d.DirectoryAt directory base) (hplain : Path.Plain name)
    (hname : Segment name) (hvet : vet (Path.join directory name) = .ok ())
    (hloose : d.Loose (base ++ [name])) : d.Available (Path.join directory name) :=
  ⟨base ++ [name], h.resolve_join false hplain hname hvet fun _ _ => rfl, hloose⟩

theorem endsInSlash_join (h : Path.Plain name) : endsInSlash (Path.join directory name) = false := by
  have hlast : ∀ front : String, endsInSlash (front ++ name) = false := by
    intro front
    have hne : name.toList ≠ [] := fun heq => h.ne_empty (String.toList_eq_nil_iff.mp heq)
    rw [endsInSlash, String.toList_append, List.getLast?_append_of_ne_nil _ hne, decide_eq_false_iff_not]
    intro hslash
    exact h.slash_notMem (List.mem_of_getLast? hslash)
  rw [Path.join, h.not_isAbsolute, if_neg (by simp)]
  split
  · exact hlast directory
  · exact hlast (directory ++ "/")

theorem endsInDots_join (h : Path.Plain name) : endsInDots (Path.join directory name) = false := by
  simp [endsInDots, steps_join h.ne_empty h.slash_notMem, h.ne_dot, h.ne_dots]

/-- The way out of a directory leads to a directory, where no file may lie. -/
theorem DirectoryAt.not_available_dots (h : d.DirectoryAt directory base) (hrooted : d.Rooted) :
    ¬d.Available (Path.join directory "..") := by
  rintro ⟨p, hresolve, hloose⟩
  obtain ⟨-, hwalks⟩ := resolve_eq_ok.mp hresolve
  obtain ⟨links, hgo⟩ := h.walks.append false h.directory (List.cons_ne_nil ".." [])
  rw [steps_join (by decide) (by decide), origin_join (by decide)] at hwalks
  have hp : p = base.dropLast := Except.ok.inj (hwalks.walk_eq.symm.trans (hgo (.dots .here)).walk_eq)
  subst hp
  apply hloose.not_directory
  cases base using List.reverseRecOn with
  | nil => rfl
  | append_singleton outer name =>
      rw [List.dropLast_concat]
      apply hrooted outer name
      rw [h.directory]
      exact Option.some_ne_none _

/-- An available name in a directory is reached. -/
theorem DirectoryAt.reaches_join (h : d.DirectoryAt directory base) (hplain : Path.Plain name)
    (havailable : d.Available (Path.join directory name)) :
    d.Reaches (Path.join directory name) (base ++ [name]) := by
  obtain ⟨p, hresolve, hloose⟩ := havailable
  obtain ⟨hvet, hwalks⟩ := resolve_eq_ok.mp hresolve
  have hname : Segment name := by
    have hmem : name ∈ steps (Path.join directory name) := by
      simp [steps_join hplain.ne_empty hplain.slash_notMem]
    exact ((hwalks.segment name hmem).resolve_left hplain.ne_dot).resolve_left hplain.ne_dots
  have hjoin := h.walks_join false hplain hname fun _ _ => rfl
  have hp : p = base ++ [name] := Except.ok.inj (hwalks.walk_eq.symm.trans hjoin.walk_eq)
  subst hp
  refine ⟨fun follow => h.resolve_join follow hplain hname hvet ?_, hloose, endsInSlash_join hplain,
    endsInDots_join hplain⟩
  exact fun target htarget => absurd htarget (hloose.not_link target)

end Disk

end SchemaCompiler
