import SourceComments.Proofs.Selection

/-! Which files a selection holds.

A file is selected exactly if walking some root comes across it, nothing ignored covers it,
and its path has a language. None of this depends on the order of the entries of a
configuration, or on how often one is listed: more ignored entries leave less, and more
included ones give more. -/

namespace SourceComments.Selection

/-- Where a selection starts to walk. -/
inductive IsRoot (tree : FileTree) (base : Path) (includes : List String) : Path → Prop
  | base (all : includes = []) : IsRoot tree base includes base
  | plain {entry : String} (included : entry ∈ includes) (literal : Glob.isPattern entry = false)
      (present : tree.pathExists (base.join ⟨entry⟩) = true) :
      IsRoot tree base includes (base.join ⟨entry⟩)
  | pattern {entry : String} {paths : List Path} {root : Path} (included : entry ∈ includes)
      (wild : Glob.isPattern entry = true)
      (read : Glob.directories tree (base.join ⟨entry⟩) = .ok paths) (named : root ∈ paths) :
      IsRoot tree base includes root

/-- The path is to be selected, under this language. -/
structure Chosen (tree : FileTree) (base : Path) (config : Config) (path : Path)
    (language : Language) : Prop where
  file : tree.isFile path = true
  walked : ∃ root, IsRoot tree base config.includes root ∧ .ok path ∈ tree.walk root
  outside : ∀ entry ∈ config.ignores, Glob.isPattern entry = false →
    path.startsWith (base.join ⟨entry⟩) = false
  unmatched : ∀ entry ∈ config.ignores, Glob.isPattern entry = true → ∀ tokens,
    Glob.tokens entry.toList = .ok tokens → Glob.matchTokens tokens path.text.toList = false
  known : config.languageFor? path = some language

section

variable {tree : FileTree} {base root path : Path} {config : Config} {language : Language}

theorem mem_rootsOf {entry : String} {paths : List Path} :
    rootsOf tree base entry = .ok paths ↔
      (Glob.isPattern entry = true ∧ Glob.directories tree (base.join ⟨entry⟩) = .ok paths) ∨
      (Glob.isPattern entry = false ∧ tree.pathExists (base.join ⟨entry⟩) = true ∧
        paths = [base.join ⟨entry⟩]) := by
  rw [rootsOf]
  cases Glob.isPattern entry with
  | true =>
      cases Glob.directories tree (base.join ⟨entry⟩) with
      | error fault => simp
      | ok found => simp
  | false =>
      cases tree.pathExists (base.join ⟨entry⟩) with
      | true => simp [eq_comm]
      | false => simp

theorem isRoot_iff :
    IsRoot tree base config.includes root ↔
      ∃ paths, .ok paths ∈ roots tree base config ∧ root ∈ paths := by
  rw [roots]
  constructor
  · intro starts
    cases starts with
    | base all =>
        refine ⟨[base], ?_, List.mem_singleton_self base⟩
        simp [all]
    | @plain entry included literal present =>
        refine ⟨_, ?_, List.mem_singleton_self _⟩
        rw [if_neg (by simpa using List.ne_nil_of_mem included)]
        exact List.mem_map.mpr ⟨entry, included, mem_rootsOf.mpr (.inr ⟨literal, present, rfl⟩)⟩
    | @pattern entry paths _ included wild read named =>
        refine ⟨paths, ?_, named⟩
        rw [if_neg (by simpa using List.ne_nil_of_mem included)]
        exact List.mem_map.mpr ⟨entry, included, mem_rootsOf.mpr (.inl ⟨wild, read⟩)⟩
  · rintro ⟨paths, listed, member⟩
    split at listed
    · rename_i all
      obtain rfl := Except.ok.inj (List.mem_singleton.mp listed)
      obtain rfl := List.mem_singleton.mp member
      exact .base (List.isEmpty_iff.mp all)
    · obtain ⟨entry, included, found⟩ := List.mem_map.mp listed
      rcases mem_rootsOf.mp found with ⟨wild, read⟩ | ⟨literal, present, rfl⟩
      · exact .pattern included wild read member
      · obtain rfl := List.mem_singleton.mp member
        exact .plain included literal present

theorem readPattern_eq_ok {entry : String} {tokens : List Glob.Token} :
    readPattern entry = .ok tokens ↔ Glob.tokens entry.toList = .ok tokens := by
  rw [readPattern]
  cases Glob.tokens entry.toList with
  | error fault => simp
  | ok found => simp

theorem mem_patterns {tokens : List Glob.Token} :
    tokens ∈ (Ignores.ofConfig base config).patterns ↔
      ∃ entry ∈ config.ignores, Glob.isPattern entry = true ∧
        Glob.tokens entry.toList = .ok tokens := by
  simp only [Ignores.ofConfig, mem_successes, readPatterns, List.mem_map, List.mem_filter,
    readPattern_eq_ok, and_assoc]

theorem covers_eq_false :
    (Ignores.ofConfig base config).covers path = false ↔
      (∀ entry ∈ config.ignores, Glob.isPattern entry = false →
        path.startsWith (base.join ⟨entry⟩) = false) ∧
      ∀ entry ∈ config.ignores, Glob.isPattern entry = true → ∀ tokens,
        Glob.tokens entry.toList = .ok tokens →
          Glob.matchTokens tokens path.text.toList = false := by
  rw [Ignores.covers, Bool.or_eq_false_iff, List.any_eq_false, List.any_eq_false]
  apply and_congr
  · simp only [Ignores.ofConfig, List.mem_map, List.mem_filter, Bool.not_eq_true',
      Bool.not_eq_true]
    constructor
    · intro apart entry ignored literal
      exact apart _ ⟨entry, ⟨ignored, literal⟩, rfl⟩
    · rintro apart _ ⟨entry, ⟨ignored, literal⟩, rfl⟩
      exact apart entry ignored literal
  · simp only [mem_patterns, Bool.not_eq_true]
    constructor
    · intro missed entry ignored wild tokens read
      exact missed tokens ⟨entry, ignored, wild, read⟩
    · rintro missed tokens ⟨entry, ignored, wild, read⟩
      exact missed entry ignored wild tokens read

/-- A selection holds what is to be selected, and nothing else. -/
theorem mem_entries_iff_chosen {key : String} :
    (key, language) ∈ (select tree base config).files.entries ↔
      Chosen tree base config ⟨key⟩ language := by
  rw [mem_entries, covers_eq_false]
  constructor
  · rintro ⟨⟨paths, listed, root, member, visited⟩, ⟨outside, unmatched⟩, known, file⟩
    exact ⟨file, ⟨root, isRoot_iff.mpr ⟨paths, listed, member⟩, visited⟩, outside, unmatched, known⟩
  · rintro ⟨file, ⟨root, starts, visited⟩, outside, unmatched, known⟩
    obtain ⟨paths, listed, member⟩ := isRoot_iff.mp starts
    exact ⟨⟨paths, listed, root, member, visited⟩, ⟨outside, unmatched⟩, known, file⟩

theorem IsRoot.mono {includes more : List String} (all : includes = [] → more = [])
    (within : includes ⊆ more) (starts : IsRoot tree base includes root) :
    IsRoot tree base more root := by
  cases starts with
  | base empty => exact .base (all empty)
  | plain included literal present => exact .plain (within included) literal present
  | pattern included wild read named => exact .pattern (within included) wild read named

/-- What is selected stays so when more is included and less ignored. Where nothing is
included in particular everything is, so this must be so in both. -/
theorem Chosen.mono {more : Config} (all : config.includes = [] → more.includes = [])
    (included : config.includes ⊆ more.includes) (ignored : more.ignores ⊆ config.ignores)
    (same : more.extensions = config.extensions)
    (chosen : Chosen tree base config path language) : Chosen tree base more path language where
  file := chosen.file
  walked := by
    obtain ⟨root, starts, visited⟩ := chosen.walked
    exact ⟨root, starts.mono all included, visited⟩
  outside entry member := chosen.outside entry (ignored member)
  unmatched entry member := chosen.unmatched entry (ignored member)
  known := by
    rw [← chosen.known, Config.languageFor?, Config.languageFor?, same]

theorem entries_mono {more : Config} (all : config.includes = [] → more.includes = [])
    (included : config.includes ⊆ more.includes) (ignored : more.ignores ⊆ config.ignores)
    (same : more.extensions = config.extensions) :
    (select tree base config).files.entries ⊆ (select tree base more).files.entries := by
  rintro ⟨key, language⟩ listed
  rw [mem_entries_iff_chosen] at listed ⊢
  exact listed.mono all included ignored same

end

/-- A selection holds exactly the files to be selected. The files among what a walk comes
across are those spelled with names behind its root, with no link on the way below it. So neither order nor repetition of the
entries of a configuration matters, an ignored entry more leaves less, and an included entry
more gives more. -/
theorem select_exact (tree : FileTree) (base : Path) (config : Config) :
    (∀ (key : String) (language : Language),
      (key, language) ∈ (select tree base config).files.entries ↔
        Chosen tree base config ⟨key⟩ language) ∧
    (tree.Named → tree.LinksEnd → ∀ root path : Path, tree.isFile path = true →
      (.ok path ∈ tree.walk root ↔ root.text ≠ "" ∧ ∃ names : List String,
        (∀ name ∈ names, Path.IsName name) ∧ path = root.descend names ∧
          ∀ directory, tree.lookup root = .ok (.directory directory) →
            tree.Unlinked directory names)) ∧
    (∀ includes ignores : List String, (∀ entry, entry ∈ includes ↔ entry ∈ config.includes) →
      (∀ entry, entry ∈ ignores ↔ entry ∈ config.ignores) →
      (select tree base ⟨includes, ignores, config.extensions⟩).files =
        (select tree base config).files) ∧
    (∀ ignores : List String, config.ignores ⊆ ignores →
      (select tree base { config with ignores }).files.entries ⊆
        (select tree base config).files.entries) ∧
    ∀ includes : List String, config.includes ≠ [] → config.includes ⊆ includes →
      (select tree base config).files.entries ⊆
        (select tree base { config with includes }).files.entries := by
  refine ⟨fun _ _ => mem_entries_iff_chosen,
    fun named ends _ _ => FileTree.mem_walk_iff named ends, ?_, ?_, ?_⟩
  · intro includes ignores sameIncludes sameIgnores
    have empty : includes = [] ↔ config.includes = [] := by
      simp only [List.eq_nil_iff_forall_not_mem, sameIncludes]
    apply Table.eq_of_mem_iff
    intro entry
    constructor
    · apply entries_mono empty.mp
      · exact fun entry member => (sameIncludes entry).mp member
      · exact fun entry member => (sameIgnores entry).mpr member
      · rfl
    · apply entries_mono empty.mpr
      · exact fun entry member => (sameIncludes entry).mpr member
      · exact fun entry member => (sameIgnores entry).mp member
      · rfl
  · intro ignores more
    exact entries_mono id (List.Subset.refl _) more rfl
  · intro includes some more
    exact entries_mono (fun none => absurd none some) more (List.Subset.refl _) rfl

/-- The library of a package is selected, however often and in whatever order its entries
are listed; ignoring it too leaves less, and including the generated part gives more. -/
theorem select_exact_in_package :
    Chosen package ⟨"pkg"⟩ ⟨["lib", "*"], ["gen"], .empty⟩ ⟨"pkg/lib/y.c"⟩ .c ∧
      .ok ⟨"pkg/lib/y.c"⟩ ∈ package.walk ⟨"pkg/lib"⟩ ∧
      (select package ⟨"pkg"⟩ ⟨["*", "lib", "*"], ["gen", "gen"], .empty⟩).files =
        (select package ⟨"pkg"⟩ ⟨["lib", "*"], ["gen"], .empty⟩).files ∧
      (select package ⟨"pkg"⟩ ⟨["lib", "*"], ["lib", "gen"], .empty⟩).files.entries ⊆
        (select package ⟨"pkg"⟩ ⟨["lib", "*"], ["gen"], .empty⟩).files.entries ∧
      (select package ⟨"pkg"⟩ ⟨["lib", "*"], ["gen"], .empty⟩).files.entries ⊆
        (select package ⟨"pkg"⟩ ⟨["lib", "*", "gen"], ["gen"], .empty⟩).files.entries := by
  obtain ⟨exactly, walked, same, fewer, more⟩ :=
    select_exact package ⟨"pkg"⟩ ⟨["lib", "*"], ["gen"], .empty⟩
  refine ⟨(exactly "pkg/lib/y.c" .c).mp (by decide +kernel), ?_, ?_, ?_, ?_⟩
  · have linkless : package.Linkless := by decide
    rw [walked (by decide +kernel) linkless.linksEnd ⟨"pkg/lib"⟩ ⟨"pkg/lib/y.c"⟩
      (by decide +kernel)]
    exact ⟨by decide, ["y.c"], by decide +kernel, by decide +kernel,
      fun _ _ _ _ _ _ => linkless.linkAt? _⟩
  · exact same _ _ (by simp [or_comm]) (by simp)
  · exact fewer ["lib", "gen"] (by simp)
  · exact more ["lib", "*", "gen"] (by simp) (by simp)

end SourceComments.Selection
