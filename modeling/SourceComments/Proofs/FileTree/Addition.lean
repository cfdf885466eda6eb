import SourceComments.Proofs.Selection
import SourceComments.Proofs.Way

/-! A new file in a place where there was nothing.

In a tree without links, every path goes on leading where it led. Something new is found only
by paths that lead to the file itself, and such a path ends in its name. So a selection that
takes no path of that name stays as it is. -/

namespace SourceComments

namespace FileTree

/-- What one step along a path can do. -/
inductive Steps (tree : FileTree) (location : Location) (piece : String) : Location → Prop
  | stay (inside : tree.entryAt? location = some .directory) (idle : Path.Idle piece) :
      Steps tree location piece location
  | up (inside : tree.entryAt? location = some .directory) (dots : piece = "..") :
      Steps tree location piece location.dropLast
  | down (inside : tree.entryAt? location = some .directory) (busy : ¬Path.Idle piece)
      (named : piece ≠ "..") (short : piece.utf8ByteSize ≤ Path.nameLimit) :
      Steps tree location piece (location ++ [piece])

section

variable {tree : FileTree} {location next : Location} {piece : String}

theorem step_eq_ok_iff :
    tree.step location piece = .ok next ↔ Steps tree location piece next := by
  constructor
  · intro moved
    have inside := (step_inside moved).1
    simp only [step, inside] at moved
    split at moved
    · rename_i idle
      obtain rfl := Except.ok.inj moved
      exact .stay inside idle
    · rename_i busy
      split at moved
      · rename_i dots
        obtain rfl := Except.ok.inj moved
        exact .up inside dots
      · rename_i named
        split at moved
        · cases moved
        · rename_i short
          obtain rfl := Except.ok.inj moved
          exact .down inside busy named (Nat.not_lt.mp short)
  · intro steps
    cases steps with
    | stay inside idle => exact step_idle inside idle
    | up inside dots =>
        simp only [step, inside]
        rw [if_neg (by simp [dots]), if_pos dots]
    | down inside busy named short =>
        rw [Path.Idle] at busy
        simp only [step, inside]
        rw [if_neg busy, if_neg named, if_neg (Nat.not_lt.mpr short)]

end

/-- The other tree has one file more, at the place. -/
structure Gains (tree other : FileTree) (place : Location) (bytes : ByteArray) : Prop
    extends DifferAt tree other place where
  absent : tree.entryAt? place = none
  present : other.entryAt? place = some (.file bytes)
  listed : other.entries = tree.entries ++ [(place, .file bytes)]

theorem gains_put {tree : FileTree} {place : Location} (absent : tree.entryAt? place = none)
    (bytes : ByteArray) : Gains tree (tree.put place (.file bytes)) place bytes := by
  cases place with
  | nil => cases absent
  | cons name names =>
      have missing : tree.entries.find? (·.1 == name :: names) = none := by
        simpa only [entryAt?, Option.map_eq_none_iff] using absent
      have kept : tree.entries.filter (·.1 != name :: names) = tree.entries := by
        rw [List.filter_eq_self]
        intro entry member
        have other := List.find?_eq_none.mp missing entry member
        simpa using other
      refine ⟨differAt_put tree _ _, absent, ?_, ?_⟩
      · simp [entryAt?, put, kept, List.find?_append, missing]
      · rw [put, kept]

namespace Gains

variable {tree other : FileTree} {directory location target : Location} {name : String}
  {bytes : ByteArray} {path : Path}

section

variable {place : Location} (gains : Gains tree other place bytes)

include gains

theorem entryAt? {entry : Entry} (present : tree.entryAt? location = some entry) :
    other.entryAt? location = some entry := by
  rw [gains.elsewhere location, present]
  intro here
  rw [here, gains.absent] at present
  cases present

theorem directory_iff :
    other.entryAt? location = some .directory ↔ tree.entryAt? location = some .directory := by
  by_cases here : location = place
  · rw [here, gains.present, gains.absent]
    simp
  · rw [gains.elsewhere location here]

theorem linkless (without : tree.Linkless) : other.Linkless := by
  intro entry member
  rw [gains.listed, List.mem_append, List.mem_singleton] at member
  rcases member with earlier | rfl
  · exact without entry earlier
  · rfl

/-- Steps lead out of directories, and these are the same. -/
theorem step_iff {piece : String} :
    other.step location piece = .ok target ↔ tree.step location piece = .ok target := by
  simp only [step_eq_ok_iff]
  constructor
  · intro moved
    cases moved with
    | stay inside idle => exact .stay (gains.directory_iff.mp inside) idle
    | up inside dots => exact .up (gains.directory_iff.mp inside) dots
    | down inside busy named short => exact .down (gains.directory_iff.mp inside) busy named short
  · intro moved
    cases moved with
    | stay inside idle => exact .stay (gains.directory_iff.mpr inside) idle
    | up inside dots => exact .up (gains.directory_iff.mpr inside) dots
    | down inside busy named short => exact .down (gains.directory_iff.mpr inside) busy named short

theorem follow_iff (without : tree.Linkless) {pieces : List String} :
    other.follow location pieces = .ok target ↔ tree.follow location pieces = .ok target := by
  induction pieces generalizing location with
  | nil => rw [follow_nil, follow_nil]
  | cons piece pieces ih =>
      constructor
      · intro reached
        obtain ⟨next, moved, later⟩ := follow_cons (gains.linkless without) reached
        rw [without.follow_cons, gains.step_iff.mp moved]
        exact ih.mp later
      · intro reached
        obtain ⟨next, moved, later⟩ := follow_cons without reached
        rw [(gains.linkless without).follow_cons, gains.step_iff.mpr moved]
        exact ih.mpr later

theorem departure (path : Path) : other.departure path = tree.departure path :=
  departure_congr (gains.toDifferAt.agreeOn List.not_mem_nil)

theorem resolve_iff (without : tree.Linkless) :
    other.resolve path = .ok (some target) ↔ tree.resolve path = .ok (some target) := by
  simp only [resolve_eq_some_iff, gains.departure, gains.follow_iff without]

theorem lookup (without : tree.Linkless) {found : Found} (led : tree.lookup path = .ok found) :
    other.lookup path = .ok found := by
  rcases lookup_cases led with
    ⟨resolved, rfl⟩ | ⟨target, resolved, ⟨bytes, present, rfl⟩ | ⟨present, rfl⟩⟩
  · have still : other.resolve path = .ok none := by
      rwa [resolve_eq_none_iff, gains.departure, ← resolve_eq_none_iff]
    simp only [FileTree.lookup, still, bind, Except.bind]
  · simp only [FileTree.lookup, (gains.resolve_iff without).mpr resolved,
      gains.entryAt? present, bind, Except.bind]
  · simp only [FileTree.lookup, (gains.resolve_iff without).mpr resolved,
      gains.entryAt? present, bind, Except.bind]

theorem isFile (without : tree.Linkless) (file : tree.isFile path = true) :
    other.isFile path = true := by
  obtain ⟨location, held, led⟩ := lookup_of_file file
  simp only [FileTree.isFile, gains.lookup without led]

/-- What a file holds can be read as before. -/
theorem read (without : tree.Linkless) (file : tree.isFile path = true) :
    other.read path = tree.read path := by
  obtain ⟨location, held, led⟩ := lookup_of_file file
  simp only [FileTree.read, led, gains.lookup without led]

end

section

variable (gains : Gains tree other (directory ++ [name]) bytes)

include gains

/-- A path leads to the place of the file only under its name. -/
theorem follow_to_file (without : tree.Linkless) {pieces : List String}
    (outside : ¬directory ++ [name] <+: location)
    (reached : tree.follow location pieces = .ok (directory ++ [name])) :
    ∃ front, Path.laterComponents pieces = front ++ [.name name] := by
  induction pieces generalizing location with
  | nil =>
      obtain rfl : location = directory ++ [name] := Except.ok.inj reached
      exact absurd (List.prefix_refl _) outside
  | cons piece pieces ih =>
      obtain ⟨next, moved, later⟩ := follow_cons without reached
      have split : Path.laterComponents (piece :: pieces) =
          Path.laterComponents [piece] ++ Path.laterComponents pieces :=
        Path.laterComponents_append [piece] pieces
      by_cases still : directory ++ [name] <+: next
      · -- Only a step down can get there, and nothing leads on from there.
        cases step_eq_ok_iff.mp moved with
        | stay => exact absurd still outside
        | up => exact absurd (still.trans (List.dropLast_prefix location)) outside
        | down _ busy named short =>
            have here := (List.prefix_concat_iff.mp still).resolve_right outside
            rw [← here] at later
            cases pieces with
            | cons more rest =>
                have inside := follow_inside (List.cons_ne_nil more rest) later
                rw [gains.absent] at inside
                cases inside
            | nil =>
                obtain ⟨-, last⟩ := List.append_inj' here rfl
                obtain rfl : name = piece := List.singleton_inj.mp last
                rw [Path.Idle] at busy
                refine ⟨[], ?_⟩
                rw [Path.laterComponents, if_neg busy, if_neg named]
                rfl
      · obtain ⟨front, ends⟩ := ih still later
        exact ⟨Path.laterComponents [piece] ++ front, by rw [split, ends, List.append_assoc]⟩

theorem fileName?_of_resolve (without : tree.Linkless)
    (outside : ¬directory ++ [name] <+: tree.workingDirectory)
    (found : tree.resolve path = .ok (some (directory ++ [name]))) :
    path.fileName? = some name := by
  obtain ⟨start, pieces, begun, reached⟩ := resolve_eq_some_iff.mp found
  obtain ⟨-, -, ⟨-, rfl, rfl⟩ | ⟨-, rfl, left⟩⟩ := departure_eq_some_iff.mp begun
  · obtain ⟨front, ends⟩ := gains.follow_to_file without (by simp) reached
    exact Path.fileName?_of_components ends
  · obtain ⟨front, ends⟩ := gains.follow_to_file without outside reached
    have whole := leaveRemoved_components left
    rw [ends, ← List.append_assoc] at whole
    exact Path.fileName?_of_components whole

theorem isFile_back (without : tree.Linkless)
    (outside : ¬directory ++ [name] <+: tree.workingDirectory)
    (file : other.isFile path = true) : tree.isFile path = true ∨ path.fileName? = some name := by
  obtain ⟨target, held, found, present⟩ := resolve_of_file file
  rw [gains.resolve_iff without] at found
  by_cases here : target = directory ++ [name]
  · exact .inr (gains.fileName?_of_resolve without outside (here ▸ found))
  · left
    rw [gains.elsewhere target here] at present
    simp only [FileTree.isFile, FileTree.lookup, found, present, bind, Except.bind]

theorem mem_contents {found : Found} {names : List String} {entry : Entry}
    (member : (names, entry) ∈ tree.contents found) : (names, entry) ∈ other.contents found := by
  cases found with
  | file location bytes => cases member
  | removedDirectory => cases member
  | directory location =>
      obtain ⟨more, listed⟩ := mem_below_iff.mp member
      refine mem_below_iff.mpr ⟨more, ?_⟩
      rw [gains.listed]
      exact List.mem_append_left _ listed

/-- Below a directory, the file is all there is to be found in addition. -/
theorem mem_contents_back {found : Found} {names : List String} {entry : Entry}
    (member : (names, entry) ∈ other.contents found) :
    (names, entry) ∈ tree.contents found ∨ ∃ front, names = front ++ [name] := by
  cases found with
  | file location bytes => cases member
  | removedDirectory => cases member
  | directory location =>
      obtain ⟨more, listed⟩ := mem_below_iff.mp member
      rw [gains.listed, List.mem_append, List.mem_singleton] at listed
      rcases listed with earlier | added
      · exact .inl (mem_below_iff.mpr ⟨more, earlier⟩)
      · right
        obtain ⟨front, last, rfl⟩ := (List.eq_nil_or_concat' names).resolve_left more
        have place := (Prod.mk.inj added).1
        rw [← List.append_assoc] at place
        obtain ⟨-, same⟩ := List.append_inj' place rfl
        exact ⟨front, by rw [same]⟩

theorem mem_walk (without : tree.Linkless) {root : Path} (visited : .ok path ∈ tree.walk root) :
    .ok path ∈ other.walk root := by
  rw [walk] at visited
  split at visited
  · simp at visited
  · rename_i found led
    rw [walk, gains.lookup without led]
    rcases List.mem_cons.mp visited with same | deeper
    · exact List.mem_cons.mpr (.inl same)
    · obtain ⟨⟨names, entry⟩, inside, visit⟩ := List.mem_flatMap.mp deeper
      apply List.mem_cons_of_mem
      exact List.mem_flatMap.mpr ⟨(names, entry), gains.mem_contents inside, visit⟩

theorem mem_walk_back (without : tree.Linkless) (proper : Path.IsName name) {root : Path}
    {found : Found} (led : tree.lookup root = .ok found) (visited : .ok path ∈ other.walk root) :
    .ok path ∈ tree.walk root ∨ path.fileName? = some name := by
  rw [walk, gains.lookup without led] at visited
  rw [walk, led]
  rcases List.mem_cons.mp visited with same | deeper
  · exact .inl (List.mem_cons.mpr (.inl same))
  · obtain ⟨⟨names, entry⟩, inside, visit⟩ := List.mem_flatMap.mp deeper
    rcases gains.mem_contents_back inside with earlier | ⟨front, rfl⟩
    · left
      apply List.mem_cons_of_mem
      exact List.mem_flatMap.mpr ⟨(names, entry), earlier, visit⟩
    · right
      rw [path_of_visits visit, Path.descend_append]
      exact proper.fileName?_join (root.descend front)

/-- A selection that knows no path of the file's name stays the same. -/
theorem select_files (without : tree.Linkless) {base : Path} {config : Config} {found : Found}
    (outside : ¬directory ++ [name] <+: tree.workingDirectory) (proper : Path.IsName name)
    (led : tree.lookup base = .ok found) (everything : config.includes = [])
    (unknown : ∀ path : Path, path.fileName? = some name → config.languageFor? path = none) :
    (Selection.select other base config).files = (Selection.select tree base config).files := by
  -- With nothing listed to include, the base is the only root in both trees.
  have roots (any : FileTree) : Selection.roots any base config = [.ok [base]] := by
    rw [Selection.roots, everything]
    rfl
  apply Table.eq_of_mem_iff
  intro entry
  obtain ⟨key, language⟩ := entry
  simp only [Selection.mem_entries, roots, List.mem_singleton, Except.ok.injEq, exists_eq_left]
  constructor
  · intro chosen
    obtain ⟨visited, uncovered, known, file⟩ := chosen
    have other : (Path.mk key).fileName? ≠ some name := by
      intro named
      rw [unknown _ named] at known
      cases known
    have before := (gains.mem_walk_back without proper led visited).resolve_right other
    have fileBefore := (gains.isFile_back without outside file).resolve_right other
    exact ⟨before, uncovered, known, fileBefore⟩
  · intro chosen
    obtain ⟨visited, uncovered, known, file⟩ := chosen
    exact ⟨gains.mem_walk without visited, uncovered, known, gains.isFile without file⟩

end

end Gains

end FileTree

end SourceComments
