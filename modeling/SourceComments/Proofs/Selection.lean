import SourceComments.Selection
import SourceComments.Proofs.Glob
import SourceComments.Proofs.Table
import SourceComments.Proofs.Walk

/-! What ignored paths keep out of a selection.

An ignored path is compared with walked ones by their components, not by the places they
lead to. Without links, the two agree when every included entry is spelled from the base on, as plain
entries are. Patterns drop a leading dot of the base, and then the comparison fails. -/

namespace SourceComments

namespace Selection

section

variable {tree : FileTree} {base : Path} {config : Config} {key : String}

theorem mem_successes {α : Type} {results : List (Except Notice α)} {value : α} :
    value ∈ successes results ↔ .ok value ∈ results := by
  apply mem_filterMap_iff
  intro result other
  cases result <;> simp

theorem mem_walkRoot {root path : Path} :
    .ok path ∈ walkRoot tree root ↔ .ok path ∈ tree.walk root := by
  rw [walkRoot, List.mem_map]
  constructor
  · rintro ⟨visit, inside, same⟩
    cases visit with
    | error fault => cases same
    | ok other =>
        obtain rfl := Except.ok.inj same
        exact inside
  · intro visited
    exact ⟨.ok path, visited, rfl⟩

theorem mem_walks {path : Path} :
    path ∈ successes (walks tree base config) ↔
      ∃ paths, .ok paths ∈ roots tree base config ∧ ∃ root ∈ paths, .ok path ∈ tree.walk root := by
  simp only [mem_successes, walks, List.mem_flatMap, List.mem_flatten, mem_walkRoot]
  constructor
  · rintro ⟨root, ⟨paths, listed, inside⟩, visited⟩
    exact ⟨paths, listed, root, inside, visited⟩
  · rintro ⟨paths, listed, root, inside, visited⟩
    exact ⟨root, ⟨paths, listed, inside⟩, visited⟩

theorem languageOf?_eq_some {ignores : Ignores} {path : Path} {language : Language} :
    languageOf? tree config ignores path = some language ↔
      ignores.covers path = false ∧ config.languageFor? path = some language ∧
        tree.isFile path = true := by
  rw [languageOf?]
  cases ignores.covers path with
  | true => simp
  | false =>
      cases config.languageFor? path with
      | none => simp
      | some known => simp [and_comm]

/-- The entries of a selection: the walked files that no ignored entry covers, each under
the language its path has. -/
theorem mem_entries {language : Language} :
    (key, language) ∈ (select tree base config).files.entries ↔
      (∃ paths, .ok paths ∈ roots tree base config ∧ ∃ root ∈ paths,
        .ok ⟨key⟩ ∈ tree.walk root) ∧
      (Ignores.ofConfig base config).covers ⟨key⟩ = false ∧
      config.languageFor? ⟨key⟩ = some language ∧ tree.isFile ⟨key⟩ = true := by
  have chosen (text : String) (found : Language) :
      (text, found) ∈ ((successes (walks tree base config)).filterMap fun path =>
        (languageOf? tree config (Ignores.ofConfig base config) path).map
          fun language => (path.text, language)) ↔
        ⟨text⟩ ∈ successes (walks tree base config) ∧
          languageOf? tree config (Ignores.ofConfig base config) ⟨text⟩ = some found := by
    rw [List.mem_filterMap]
    constructor
    · rintro ⟨path, walked, judged⟩
      obtain ⟨known, language, same⟩ := Option.map_eq_some_iff.mp judged
      obtain ⟨rfl, rfl⟩ := Prod.mk.inj same
      exact ⟨walked, language⟩
    · rintro ⟨walked, judged⟩
      exact ⟨⟨text⟩, walked, by rw [judged]; rfl⟩
  rw [select, Table.mem_ofList_iff, chosen, mem_walks, languageOf?_eq_some]
  -- The language belongs to the path, so no two entries of one path differ.
  rintro ⟨text, found⟩ listed ⟨other, foundToo⟩ listedToo same
  obtain rfl : text = other := same
  rw [chosen] at listed listedToo
  rw [Option.some.inj (listed.2.symm.trans listedToo.2)]

/-- A selected key is a walked file that no ignored entry covers. -/
theorem mem_select (selected : key ∈ (select tree base config).files.keys) :
    (∃ paths, .ok paths ∈ roots tree base config ∧ ∃ root ∈ paths,
      .ok ⟨key⟩ ∈ tree.walk root) ∧
    (Ignores.ofConfig base config).covers ⟨key⟩ = false ∧ tree.isFile ⟨key⟩ = true := by
  obtain ⟨⟨text, language⟩, listed, rfl⟩ := List.mem_map.mp selected
  obtain ⟨walked, uncovered, -, file⟩ := mem_entries.mp listed
  exact ⟨walked, uncovered, file⟩

/-- The included entry leads only to roots that are spelled below the base. -/
inductive Aligned (base : Path) (entry : String) : Prop
  | plain (literal : Glob.isPattern entry = false) (below : Path.Below base (base.join ⟨entry⟩))
  | pattern (wild : Glob.isPattern entry = true) (anchored : Glob.Anchored base)
      (relative : (Path.mk entry).isAbsolute = false)
      (downward : ∀ piece ∈ (Path.mk entry).pieces, ∀ one, Glob.tokens piece.toList = .ok one →
        (Glob.Stage.ofTokens one).Downward)

theorem roots_below (named : tree.Named) (aligned : ∀ entry ∈ config.includes, Aligned base entry)
    {paths : List Path} (listed : .ok paths ∈ roots tree base config) {root : Path}
    (member : root ∈ paths) : Path.Below base root := by
  rw [roots] at listed
  split at listed
  · obtain rfl := Except.ok.inj (List.mem_singleton.mp listed)
    obtain rfl := List.mem_singleton.mp member
    exact Path.Below.refl root
  · obtain ⟨entry, included, found⟩ := List.mem_map.mp listed
    rw [rootsOf] at found
    cases aligned entry included with
    | plain literal below =>
        rw [literal, if_neg Bool.false_ne_true] at found
        split at found
        · obtain rfl := Except.ok.inj found
          obtain rfl := List.mem_singleton.mp member
          exact below
        · cases found
    | pattern wild anchored relative downward =>
        rw [if_pos wild] at found
        split at found
        · rename_i directories read
          obtain rfl := Except.ok.inj found
          exact Glob.directories_below named anchored relative downward read member
        · cases found

theorem not_startsWith_of_uncovered {ignores : Ignores} {path start : Path}
    (uncovered : ignores.covers path = false) (listed : start ∈ ignores.paths) :
    path.startsWith start = false := by
  rw [Ignores.covers, Bool.or_eq_false_iff, List.any_eq_false] at uncovered
  exact Bool.eq_false_iff.mpr (uncovered.1 start listed)

theorem mem_ignoredPaths {entry : String} (ignored : entry ∈ config.ignores)
    (literal : Glob.isPattern entry = false) :
    base.join ⟨entry⟩ ∈ (Ignores.ofConfig base config).paths :=
  List.mem_map.mpr ⟨entry, List.mem_filter.mpr ⟨ignored, by simp [literal]⟩, rfl⟩

/-- Every walked path is spelled below the base. -/
theorem walked_below (named : tree.Named)
    (aligned : ∀ entry ∈ config.includes, Aligned base entry)
    {paths : List Path} (listed : .ok paths ∈ roots tree base config) {root path : Path}
    (member : root ∈ paths) (visited : .ok path ∈ tree.walk root) : Path.Below base path := by
  have below := roots_below named aligned listed member
  rcases FileTree.mem_walk named visited with rfl | ⟨some, names, proper, rfl⟩
  · exact below
  · exact below.descend some proper

/-- Without links, ignored paths are honoured below a base that all included entries are
spelled from: a selected file lies nowhere at or below the place such a path leads to. -/
theorem select_honours_ignored (tree : FileTree) (base : Path) (config : Config)
    (entry key : String) (place : Location) (named : tree.Named) (linkless : tree.Linkless)
    (aligned : ∀ included ∈ config.includes, Aligned base included)
    (ignored : entry ∈ config.ignores) (literal : Glob.isPattern entry = false)
    (normal : ∃ names : List String, (Path.mk entry).components = names.map .name)
    (denoted : tree.resolve (base.join ⟨entry⟩) = .ok (some place))
    (selected : key ∈ (select tree base config).files.keys) :
    ∃ location bytes, tree.resolve ⟨key⟩ = .ok (some location) ∧
      tree.entryAt? location = some (.file bytes) ∧ ¬place <+: location := by
  obtain ⟨⟨paths, listed, root, inside, visited⟩, uncovered, file⟩ := mem_select selected
  obtain ⟨location, bytes, resolved, present⟩ := FileTree.resolve_of_file file
  refine ⟨location, bytes, resolved, present, ?_⟩
  intro within
  obtain ⟨names, plain⟩ := normal
  obtain ⟨others, spelled⟩ := walked_below named aligned listed inside visited
  have start := Path.components_join_names base plain
  obtain ⟨common, rfl, rfl⟩ := FileTree.resolve_names linkless start spelled denoted resolved
  have further : names <+: others := (List.prefix_append_right_inj common).mp within
  have covered : (Path.mk key).startsWith (base.join ⟨entry⟩) = true := by
    rw [Path.startsWith, List.isPrefixOf_iff_prefix, start, spelled,
      List.prefix_append_right_inj]
    exact further.map Component.name
  rw [not_startsWith_of_uncovered uncovered (mem_ignoredPaths ignored literal)] at covered
  cases covered

end

/-- A package with a library and a generated part. -/
def package : FileTree where
  entries := [(["pkg"], .directory), (["pkg", "gen"], .directory),
    (["pkg", "gen", "x.c"], .file .empty), (["pkg", "lib"], .directory),
    (["pkg", "lib", "y.c"], .file .empty)]

theorem select_honours_ignored_in_package :
    "pkg/lib/y.c" ∈ (select package ⟨"pkg"⟩ ⟨["lib", "*"], ["gen"], .empty⟩).files.keys ∧
      ∃ location bytes, package.resolve ⟨"pkg/lib/y.c"⟩ = .ok (some location) ∧
        package.entryAt? location = some (.file bytes) ∧ ¬["pkg", "gen"] <+: location := by
  have named : package.Named := by decide +kernel
  have anchored : Glob.Anchored ⟨"pkg"⟩ :=
    ⟨by decide +kernel, by decide +kernel, by simp [Glob.isSpecial]⟩
  have aligned : ∀ included ∈ ["lib", "*"], Aligned ⟨"pkg"⟩ included := by
    intro included member
    rcases List.mem_pair.mp member with rfl | rfl
    · exact .plain (by decide +kernel) ⟨["lib"], by decide +kernel⟩
    · refine .pattern (by decide +kernel) anchored (by decide +kernel) ?_
      intro piece inside one read
      rw [Path.pieces_of_not_mem (by decide)] at inside
      obtain rfl := List.mem_singleton.mp inside
      obtain rfl : [.anySequence] = one := Except.ok.inj read
      exact (by decide : ".." ∉ Glob.dotNames [.anySequence])
  have normal : ∃ names : List String, (Path.mk "gen").components = names.map .name :=
    ⟨["gen"], by decide +kernel⟩
  have denoted : package.resolve (Path.join ⟨"pkg"⟩ ⟨"gen"⟩) = .ok (some ["pkg", "gen"]) := by
    decide +kernel
  have selected :
      "pkg/lib/y.c" ∈ (select package ⟨"pkg"⟩ ⟨["lib", "*"], ["gen"], .empty⟩).files.keys := by
    decide +kernel
  exact ⟨selected, select_honours_ignored package ⟨"pkg"⟩ ⟨["lib", "*"], ["gen"], .empty⟩ "gen"
    "pkg/lib/y.c" ["pkg", "gen"] named (by decide) aligned List.mem_cons_self (by decide +kernel) normal
    denoted selected⟩

/-- Under a dot, a pattern finds the generated part though its path is ignored. -/
theorem select_misses_ignored_under_dot :
    (Path.mk "pkg/gen").components = [.name "pkg", .name "gen"] ∧
      package.resolve (Path.here.join ⟨"pkg/gen"⟩) = .ok (some ["pkg", "gen"]) ∧
      "pkg/gen/x.c" ∈
        (select package Path.here ⟨["pkg/*"], ["pkg/gen"], .empty⟩).files.keys ∧
      package.resolve ⟨"pkg/gen/x.c"⟩ = .ok (some ["pkg", "gen", "x.c"]) := by
  decide +kernel

end Selection

end SourceComments
