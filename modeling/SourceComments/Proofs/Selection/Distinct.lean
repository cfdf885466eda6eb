import SourceComments.Proofs.Glob.Spelling
import SourceComments.Proofs.Selection.Exact

/-! When a selection lists no file twice.

A selection tells files apart by the text of their paths. So two included entries that lead
to one file list it once only if they spell it alike, and they do if every root is spelled
with proper names behind one front. Entries with dots or doubled slashes have other fronts,
and so have patterns beside plain entries under a base that patterns respell. -/

namespace SourceComments

namespace Path

theorem isAbsolute_iff {path : Path} (nonempty : path.text ≠ "") :
    path.isAbsolute = true ↔ path.pieces.head? = some "" := by
  constructor
  · exact head?_pieces_of_absolute
  · intro first
    obtain ⟨rest, split⟩ := List.head?_eq_some_iff.mp first
    have more : rest ≠ [] := by
      rintro rfl
      apply nonempty
      rw [← ofPieces_pieces path, split]
      rfl
    have slash : path.text = "/" ++ (ofPieces rest).text :=
      @text_eq_append path [""] rest split (by simp) more
    simp [isAbsolute, slash]

/-- What a path with these pieces starts with besides its names and the double dots. -/
def leadOf (pieces : List String) : List Component :=
  if pieces.head? = some "" then [.root] else if pieces.head? = some "." then [.here] else []

theorem lead_eq {path : Path} (nonempty : path.text ≠ "") : path.lead = leadOf path.pieces := by
  simp only [lead, leadOf, isAbsolute_iff nonempty]

theorem leadOf_append {front names : List String} (proper : ∀ name ∈ names, IsName name) :
    leadOf (front ++ names) = leadOf front := by
  cases front with
  | cons piece front => rfl
  | nil =>
      cases names with
      | nil => rfl
      | cons name names =>
          have here := proper name List.mem_cons_self
          simp [leadOf, here.nonempty, here.notHere]

theorem components_named {path : Path} {front names : List String} (nonempty : path.text ≠ "")
    (proper : ∀ name ∈ names, IsName name) (spelled : path.pieces = front ++ names) :
    path.components = leadOf front ++ laterComponents front ++ names.map .name := by
  rw [components_eq, lead_eq nonempty, spelled, leadOf_append proper, laterComponents_append,
    laterComponents_names proper, List.append_assoc]

end Path

/-- Behind one front, names are the only spelling of the place they lead to. -/
theorem FileTree.eq_of_resolve {tree : FileTree} {path other : Path} {place : Location}
    {front names otherNames : List String} (linkless : tree.Linkless) (proper : ∀ name ∈ names, Path.IsName name)
    (otherProper : ∀ name ∈ otherNames, Path.IsName name)
    (spelled : path.pieces = front ++ names) (otherSpelled : other.pieces = front ++ otherNames)
    (found : tree.resolve path = .ok (some place))
    (otherFound : tree.resolve other = .ok (some place)) : path = other := by
  have start := Path.components_named (spelled_of_resolve found).1 proper spelled
  have otherStart :=
    Path.components_named (spelled_of_resolve otherFound).1 otherProper otherSpelled
  obtain ⟨common, ends, otherEnds⟩ := resolve_names linkless start otherStart found otherFound
  have same : names = otherNames := List.append_cancel_left (ends.symm.trans otherEnds)
  rw [← Path.ofPieces_pieces path, ← Path.ofPieces_pieces other, spelled, otherSpelled, same]

namespace Selection

/-- The included entry leads to roots that are spelled with names behind the front. -/
inductive Fronted (base : Path) (front : List String) (entry : String) : Prop
  | plain (literal : Glob.isPattern entry = false)
      (continues : (base.join ⟨entry⟩).Continues front)
  | pattern (wild : Glob.isPattern entry = true)
      (staged : ∀ found, Glob.stages (base.join ⟨entry⟩).text.toList = .ok found →
        Glob.Staged front (Glob.start (base.join ⟨entry⟩) found).1
          (Glob.start (base.join ⟨entry⟩) found).2)

section

variable {tree : FileTree} {base root : Path} {config : Config} {front : List String}
  {key other : String}

theorem IsRoot.continues (named : tree.Named)
    (fronted : ∀ entry ∈ config.includes, Fronted base front entry) (some : config.includes ≠ [])
    (starts : IsRoot tree base config.includes root) : root.Continues front := by
  cases starts with
  | base all => exact absurd all some
  | @plain entry included literal present =>
      cases fronted entry included with
      | plain _ continues => exact continues
      | pattern wild => exact absurd wild (by simp [literal])
  | @pattern entry paths _ included wild read member =>
      cases fronted entry included with
      | plain literal => exact absurd wild (by simp [literal])
      | pattern _ staged =>
          obtain ⟨found, whole, reached⟩ := Glob.mem_directories read member
          exact (Glob.expandFrom_namedFrom named (staged found whole) reached).continues

/-- All roots are spelled behind one front. Without included entries that is the base. -/
theorem exists_front (named : tree.Named)
    (fronted : ∀ entry ∈ config.includes, Fronted base front entry) :
    ∃ common, ∀ root, IsRoot tree base config.includes root → root.Continues common := by
  by_cases all : config.includes = []
  · refine ⟨base.stem, ?_⟩
    intro root starts
    obtain ⟨paths, listed, member⟩ := isRoot_iff.mp starts
    rw [roots, all] at listed
    obtain rfl := Except.ok.inj (List.mem_singleton.mp listed)
    obtain rfl := List.mem_singleton.mp member
    exact ⟨[], by simp, (List.append_nil _).symm⟩
  · exact ⟨front, fun root => IsRoot.continues named fronted all⟩

/-- A selected key is spelled as its root is, with more names behind. -/
theorem key_pieces (named : tree.Named)
    (continues : ∀ root, IsRoot tree base config.includes root → root.Continues front)
    (selected : key ∈ (select tree base config).files.keys) :
    tree.isFile ⟨key⟩ = true ∧ ∃ names : List String, (∀ name ∈ names, Path.IsName name) ∧
      (Path.mk key).pieces = front ++ names := by
  obtain ⟨⟨paths, listed, root, inside, visited⟩, -, file⟩ := mem_select selected
  refine ⟨file, ?_⟩
  rw [FileTree.pieces_of_file file]
  have continued := continues root (isRoot_iff.mpr ⟨paths, listed, inside⟩)
  rcases FileTree.mem_walk named visited with rfl | ⟨-, names, proper, spelled⟩
  · exact continued
  · rw [spelled]
    exact continued.descend proper

/-- However the included entries overlap, in a tree without links no file is listed twice if
they all spell what they lead to behind one front: different keys lead to different files. -/
theorem select_lists_once (tree : FileTree) (base : Path) (config : Config)
    (front : List String) (key other : String) (named : tree.Named) (linkless : tree.Linkless)
    (fronted : ∀ entry ∈ config.includes, Fronted base front entry)
    (selected : key ∈ (select tree base config).files.keys)
    (selectedToo : other ∈ (select tree base config).files.keys) (different : key ≠ other) :
    ∃ place bytes otherPlace otherBytes,
      tree.resolve ⟨key⟩ = .ok (some place) ∧ tree.entryAt? place = some (.file bytes) ∧
      tree.resolve ⟨other⟩ = .ok (some otherPlace) ∧
      tree.entryAt? otherPlace = some (.file otherBytes) ∧ place ≠ otherPlace := by
  obtain ⟨common, continues⟩ := exists_front named fronted
  obtain ⟨file, names, proper, spelled⟩ := key_pieces named continues selected
  obtain ⟨otherFile, otherNames, otherProper, otherSpelled⟩ :=
    key_pieces named continues selectedToo
  obtain ⟨place, bytes, found, present⟩ := FileTree.resolve_of_file file
  obtain ⟨otherPlace, otherBytes, otherFound, otherPresent⟩ := FileTree.resolve_of_file otherFile
  refine ⟨place, bytes, otherPlace, otherBytes, found, present, otherFound, otherPresent, ?_⟩
  rintro rfl
  have same := FileTree.eq_of_resolve linkless proper otherProper spelled otherSpelled found
    otherFound
  exact different (congrArg Path.text same)

end

/-- A directory, a pattern that names it too and a file in it. -/
def overlapping : Config := ⟨["lib/", "*", "lib/y.c"], [], .empty⟩

theorem select_lists_once_in_package :
    "pkg/lib/y.c" ∈ (select package ⟨"pkg"⟩ overlapping).files.keys ∧
      "pkg/gen/x.c" ∈ (select package ⟨"pkg"⟩ overlapping).files.keys ∧
      ∃ place bytes otherPlace otherBytes,
        package.resolve ⟨"pkg/lib/y.c"⟩ = .ok (some place) ∧
        package.entryAt? place = some (.file bytes) ∧
        package.resolve ⟨"pkg/gen/x.c"⟩ = .ok (some otherPlace) ∧
        package.entryAt? otherPlace = some (.file otherBytes) ∧ place ≠ otherPlace := by
  have fronted : ∀ entry ∈ overlapping.includes, Fronted ⟨"pkg"⟩ ["pkg"] entry := by
    intro entry member
    rcases List.mem_cons.mp member with rfl | member
    · exact .plain (by decide +kernel) ⟨["lib"], by decide +kernel, by decide +kernel⟩
    rcases List.mem_pair.mp member with rfl | rfl
    · refine .pattern (by decide +kernel) ?_
      intro found read
      obtain rfl : [.plain "pkg", .names [.anySequence]] = found := by
        rw [← Except.ok.injEq, ← read]
        decide +kernel
      exact ⟨["pkg"], [.names [.anySequence]], by decide +kernel, by decide +kernel, by simp,
        List.forall_mem_singleton.mpr (by decide : Glob.dotNames [.anySequence] = [])⟩
    · exact .plain (by decide +kernel) ⟨["lib", "y.c"], by decide +kernel, by decide +kernel⟩
  have keys : (select package ⟨"pkg"⟩ overlapping).files.keys = ["pkg/gen/x.c", "pkg/lib/y.c"] := by
    decide +kernel
  have library : "pkg/lib/y.c" ∈ (select package ⟨"pkg"⟩ overlapping).files.keys := by
    simp [keys]
  have generated : "pkg/gen/x.c" ∈ (select package ⟨"pkg"⟩ overlapping).files.keys := by
    simp [keys]
  exact ⟨library, generated, select_lists_once package ⟨"pkg"⟩ overlapping ["pkg"] "pkg/lib/y.c"
    "pkg/gen/x.c" (by decide +kernel) (by decide) fronted library generated (by decide)⟩

/-- Under a dot, a directory and a pattern for its parts list one file twice. -/
theorem select_lists_twice_under_dot :
    (select package Path.here ⟨["pkg", "pkg/*"], [], .empty⟩).files.keys =
        ["./pkg/gen/x.c", "./pkg/lib/y.c", "pkg/gen/x.c", "pkg/lib/y.c"] ∧
      package.resolve ⟨"./pkg/gen/x.c"⟩ = .ok (some ["pkg", "gen", "x.c"]) ∧
      package.resolve ⟨"pkg/gen/x.c"⟩ = .ok (some ["pkg", "gen", "x.c"]) := by
  decide +kernel

end Selection

end SourceComments
