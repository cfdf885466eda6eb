import SourceComments.Proofs.Glob.Pieces
import SourceComments.Proofs.Selection.Exact

/-! What a valid configuration promises to a selection.

No ignored entry of a valid configuration is dropped, since ignored patterns are checked as
they are used. An included pattern is used differently: it is followed piece by piece, and
behind the base. So it is dropped where one of its brackets lists a slash, or where the base
itself has a piece that cannot be read as a pattern. -/

namespace SourceComments

namespace Config

variable {config : Config}

theorem problem?_of_valid (valid : config.validate = .ok ()) : config.problem? = none := by
  rw [validate] at valid
  split at valid
  · assumption
  · cases valid

/-- Every ignored entry of a valid configuration can be read as a pattern. -/
theorem ignores_compile (valid : config.validate = .ok ()) {entry : String}
    (ignored : entry ∈ config.ignores) : Glob.Compiles entry.toList := by
  have sound := problem?_of_valid valid
  rw [problem?, Option.or_eq_none_iff, List.findSome?_eq_none_iff] at sound
  have clear := sound.1 entry ignored
  rw [ignoreProblem?] at clear
  split at clear
  · exact ⟨_, by assumption⟩
  · cases clear

/-- So can the included entries that are patterns. -/
theorem includes_compile (valid : config.validate = .ok ()) {entry : String}
    (included : entry ∈ config.includes) (wild : Glob.isPattern entry = true) :
    Glob.Compiles entry.toList := by
  have sound := problem?_of_valid valid
  rw [problem?, Option.or_eq_none_iff, Option.or_eq_none_iff, List.findSome?_eq_none_iff,
    List.findSome?_eq_none_iff] at sound
  have clear := sound.2.1 entry included
  rw [includeProblem?, if_pos wild] at clear
  split at clear
  · exact ⟨_, by assumption⟩
  · cases clear

end Config

namespace Selection

section

variable {tree : FileTree} {base : Path} {config : Config} {entry : String}
  {fault : Glob.PatternFault}

theorem mem_notices {α : Type} {results : List (Except Notice α)} {notice : Notice} :
    notice ∈ notices results ↔ .error notice ∈ results := by
  apply mem_filterMap_iff
  intro result other
  cases result <;> simp

theorem error_mem_readPatterns {notice : Notice} :
    .error notice ∈ readPatterns config ↔ ∃ entry ∈ config.ignores, Glob.isPattern entry = true ∧
      ∃ fault, Glob.tokens entry.toList = .error fault ∧ notice = .badIgnore entry fault := by
  simp only [readPatterns, List.mem_map, List.mem_filter, and_assoc]
  refine exists_congr fun entry => and_congr_right fun _ => and_congr_right fun _ => ?_
  rw [readPattern]
  cases Glob.tokens entry.toList with
  | ok found => simp
  | error fault => simp [eq_comm]

theorem error_mem_roots {notice : Notice} :
    .error notice ∈ roots tree base config ↔ ∃ entry ∈ config.includes,
      (Glob.isPattern entry = true ∧ ∃ fault,
        Glob.directories tree (base.join ⟨entry⟩) = .error fault ∧
          notice = .badInclude entry fault) ∨
      (Glob.isPattern entry = false ∧ tree.pathExists (base.join ⟨entry⟩) = false ∧
        notice = .missingInclude (base.join ⟨entry⟩)) := by
  rw [roots]
  by_cases all : config.includes = []
  · simp [all]
  · rw [if_neg (by simpa using all), List.mem_map]
    refine exists_congr fun entry => and_congr_right fun _ => ?_
    rw [rootsOf]
    cases Glob.isPattern entry with
    | true =>
        cases Glob.directories tree (base.join ⟨entry⟩) with
        | ok found => simp
        | error fault => simpa using eq_comm
    | false =>
        cases tree.pathExists (base.join ⟨entry⟩) with
        | true => simp
        | false => simpa using eq_comm

theorem error_mem_walks {notice : Notice} (listed : .error notice ∈ walks tree base config) :
    ∃ path fault, notice = .inaccessible path fault := by
  rw [walks, List.mem_flatMap] at listed
  obtain ⟨root, -, visited⟩ := listed
  obtain ⟨visit, -, same⟩ := List.mem_map.mp visited
  cases visit with
  | ok path => cases same
  | error missed => exact ⟨missed.1, missed.2, (Except.error.inj same).symm⟩

theorem mem_report {notice : Notice} :
    notice ∈ report tree base config ↔ .error notice ∈ readPatterns config ∨
      .error notice ∈ roots tree base config ∨ .error notice ∈ walks tree base config := by
  rw [report, List.mem_append, List.mem_append, mem_notices, mem_notices, mem_notices, or_assoc]

theorem badIgnore_mem_report :
    .badIgnore entry fault ∈ report tree base config ↔ entry ∈ config.ignores ∧
      Glob.isPattern entry = true ∧ Glob.tokens entry.toList = .error fault := by
  have elsewhere : .error (.badIgnore entry fault) ∉ walks tree base config := by
    intro listed
    obtain ⟨path, missed, impossible⟩ := error_mem_walks listed
    cases impossible
  rw [mem_report, error_mem_readPatterns, error_mem_roots, or_iff_left_of_imp]
  · simp
  · simp [elsewhere]

theorem badInclude_mem_report :
    .badInclude entry fault ∈ report tree base config ↔ entry ∈ config.includes ∧
      Glob.isPattern entry = true ∧
        Glob.directories tree (base.join ⟨entry⟩) = .error fault := by
  have elsewhere : .error (.badInclude entry fault) ∉ walks tree base config := by
    intro listed
    obtain ⟨path, missed, impossible⟩ := error_mem_walks listed
    cases impossible
  rw [mem_report, error_mem_readPatterns, error_mem_roots]
  simp [elsewhere]

/-- A valid configuration loses no ignored entry. It loses an included pattern exactly if one
of its brackets lists a slash, or if the base it stands behind has a piece that is no
pattern. -/
theorem report_of_valid (tree : FileTree) (base : Path) (config : Config)
    (valid : config.validate = .ok ()) :
    (∀ entry fault, .badIgnore entry fault ∉ report tree base config) ∧
    (∀ entry ∈ config.ignores, Glob.isPattern entry = true →
      ∃ found ∈ (Ignores.ofConfig base config).patterns, Glob.tokens entry.toList = .ok found) ∧
    ∀ entry, (∃ fault, .badInclude entry fault ∈ report tree base config) ↔
      entry ∈ config.includes ∧ Glob.isPattern entry = true ∧
        (Glob.SplitsBracket entry.toList ∨ (Path.mk entry).isAbsolute = false ∧
          ∃ piece ∈ base.pieces, ¬Glob.Compiles piece.toList) := by
  refine ⟨?_, ?_, ?_⟩
  · intro entry fault reported
    obtain ⟨ignored, -, flawed⟩ := badIgnore_mem_report.mp reported
    obtain ⟨found, read⟩ := Config.ignores_compile valid ignored
    rw [read] at flawed
    cases flawed
  · intro entry ignored wild
    obtain ⟨found, read⟩ := Config.ignores_compile valid ignored
    exact ⟨found, mem_patterns.mpr ⟨entry, ignored, wild, read⟩, read⟩
  · intro entry
    simp only [badInclude_mem_report, exists_and_left, Glob.directories_join_error]
    refine and_congr_right fun included => and_congr_right fun wild => or_congr_left ?_
    exact Glob.splitsBracket_iff (Config.includes_compile valid included wild)

end

/-- A package keeps the include `[gl]*` and every ignored entry of a valid configuration,
but not the include `l[/]*`. -/
theorem report_of_valid_in_package :
    (⟨["[gl]*", "l[/]*"], ["**/g[!/]n/**"], .empty⟩ : Config).validate = .ok () ∧
      (∀ entry fault, .badIgnore entry fault ∉
        report package ⟨"pkg"⟩ ⟨["[gl]*", "l[/]*"], ["**/g[!/]n/**"], .empty⟩) ∧
      (¬∃ fault, .badInclude "[gl]*" fault ∈
        report package ⟨"pkg"⟩ ⟨["[gl]*", "l[/]*"], ["**/g[!/]n/**"], .empty⟩) ∧
      ∃ fault, .badInclude "l[/]*" fault ∈
        report package ⟨"pkg"⟩ ⟨["[gl]*", "l[/]*"], ["**/g[!/]n/**"], .empty⟩ := by
  have valid : (⟨["[gl]*", "l[/]*"], ["**/g[!/]n/**"], .empty⟩ : Config).validate = .ok () := by
    decide +kernel
  obtain ⟨ignores, -, includes⟩ := report_of_valid package ⟨"pkg"⟩ _ valid
  refine ⟨valid, ignores, ?_, ?_⟩
  · rw [includes]
    rintro ⟨-, -, ⟨found, read, slash⟩ | ⟨-, piece, inside, flawed⟩⟩
    · obtain rfl : [.within [⟨'g', 'g'⟩, ⟨'l', 'l'⟩], .anySequence] = found := Except.ok.inj read
      revert slash
      decide
    · rw [Path.pieces_of_not_mem (by decide)] at inside
      obtain rfl := List.mem_singleton.mp inside
      exact flawed ⟨_, rfl⟩
  · rw [includes]
    refine ⟨by decide, by decide +kernel, .inl ⟨_, rfl, ?_⟩⟩
    decide

/-- A valid configuration loses its only include, and so does one under a directory whose
name opens a bracket. -/
theorem report_drops_valid_include :
    (⟨["a[/]*"], [], .empty⟩ : Config).validate = .ok () ∧
      report package Path.here ⟨["a[/]*"], [], .empty⟩ =
        [.badInclude "a[/]*" ⟨1, .badRange⟩] ∧
      (⟨["*"], [], .empty⟩ : Config).validate = .ok () ∧
      report package ⟨"a["⟩ ⟨["*"], [], .empty⟩ = [.badInclude "*" ⟨1, .badRange⟩] := by
  decide +kernel

end Selection

end SourceComments
