import SourceComments.Survey
import SourceComments.Proofs.Issue
import SourceComments.Proofs.Table
import SourceComments.Proofs.Way

/-! What a survey reports.

Every file of a survey is reported on once: its comments are listed if its bytes are a text
that can be read through, and otherwise there is an issue that says which of the two failed.
The report on a file depends on nothing but the places its own path comes by. These need not
be the file and the directories above it: a link makes one file's report another's concern,
and so do double dots behind a directory that is only passed through. -/

namespace SourceComments

theorem fromUTF8?_eq_some_iff {bytes : ByteArray} {text : String} :
    String.fromUTF8? bytes = some text ↔ bytes = text.toUTF8 := by
  rw [String.fromUTF8?]
  constructor
  · intro read
    split at read
    · rw [← Option.some.inj read]
      rfl
    · cases read
  · rintro rfl
    exact dif_pos text.isValidUTF8

namespace FileTree

/-- The path leads to a file whose bytes are the text in UTF-8. -/
def HasText (tree : FileTree) (path : Path) (text : String) : Prop :=
  ∃ location, tree.lookup path = .ok (.file location text.toUTF8)

theorem read_eq_ok_iff {tree : FileTree} {path : Path} {text : String} :
    tree.read path = .ok text ↔ tree.HasText path text := by
  simp only [read, HasText, bind, Except.bind]
  cases tree.lookup path with
  | error fault => simp
  | ok found =>
      cases found with
      | directory location => simp
      | removedDirectory => simp
      | file location bytes =>
          simp only [Except.ok.injEq, Found.file.injEq, exists_eq_left', ← fromUTF8?_eq_some_iff]
          cases String.fromUTF8? bytes <;> simp

end FileTree

section

variable {tree : FileTree} {path : String} {language : Language}

theorem extractFile_eq_ok_iff {file : FileComments} :
    extractFile tree path language = .ok file ↔ file.path = path ∧ file.language = language ∧
      ∃ text, tree.HasText ⟨path⟩ text ∧ language.extract text = .ok file.comments := by
  obtain ⟨filePath, fileLanguage, comments⟩ := file
  simp only [← FileTree.read_eq_ok_iff, extractFile]
  cases tree.read ⟨path⟩ with
  | error fault => simp
  | ok text =>
      simp only [extractText, Except.ok.injEq, exists_eq_left']
      cases language.extract text with
      | error reason => simp
      | ok found => simp [eq_comm]

theorem extractFile_eq_unterminated_iff :
    extractFile tree path language = .error (.unterminated path) ↔
      ∃ text, tree.HasText ⟨path⟩ text ∧ language.extract text = .error .blockComment := by
  simp only [← FileTree.read_eq_ok_iff, extractFile]
  cases tree.read ⟨path⟩ with
  | error fault => simp
  | ok text =>
      simp only [extractText, Except.ok.injEq, exists_eq_left']
      cases language.extract text with
      | error reason => simp
      | ok found => simp

theorem extractFile_eq_unreadable_iff :
    (∃ reason, extractFile tree path language = .error (.unreadable path reason)) ↔
      ∀ text, ¬tree.HasText ⟨path⟩ text := by
  simp only [← FileTree.read_eq_ok_iff, extractFile]
  cases tree.read ⟨path⟩ with
  | error fault => simp
  | ok text =>
      simp only [extractText]
      cases language.extract text with
      | error reason => simp
      | ok found => simp

end

namespace Findings

theorem mem_filesOf {results : List (Except Issue FileComments)} {file : FileComments} :
    file ∈ filesOf results ↔ .ok file ∈ results := by
  apply mem_filterMap_iff
  intro result other
  cases result <;> simp

theorem mem_issuesOf {results : List (Except Issue FileComments)} {issue : Issue} :
    issue ∈ issuesOf results ↔ .error issue ∈ results := by
  apply mem_filterMap_iff
  intro result other
  cases result <;> simp

/-- The path of a file, whatever came of it. -/
def pathOf : Except Issue FileComments → String
  | .ok file => file.path
  | .error issue => issue.path

theorem pathOf_extractFile (tree : FileTree) (path : String) (language : Language) :
    pathOf (extractFile tree path language) = path := by
  rw [extractFile]
  split
  · rfl
  · rw [extractText]
    split <;> rfl

/-- Splitting results into files and issues loses none and repeats none. -/
theorem paths_perm (results : List (Except Issue FileComments)) :
    ((filesOf results).map FileComments.path ++ (issuesOf results).map Issue.path).Perm
      (results.map pathOf) := by
  induction results with
  | nil => exact .nil
  | cons result results ih =>
      cases result with
      | ok file => exact ih.cons file.path
      | error issue => exact List.perm_middle.trans (ih.cons issue.path)

theorem sortFiles_ascending (files : List FileComments) :
    (sortFiles files).Pairwise fun left right => left.path ≤ right.path := by
  have ordered : (sortFiles files).Pairwise fun left right =>
      decide (left.path ≤ right.path) = true := by
    apply List.pairwise_mergeSort
    · intro first second third before after
      rw [decide_eq_true_eq] at before after ⊢
      exact le_trans before after
    · intro left right
      rw [Bool.or_eq_true, decide_eq_true_eq, decide_eq_true_eq]
      exact le_total left.path right.path
  exact ordered.imp of_decide_eq_true

/-- Among distinct paths, ascending means strictly ascending, by their bytes. -/
theorem ascending_of_nodup {α : Type} {path : α → String} {items : List α}
    (ordered : items.Pairwise fun left right => path left ≤ path right)
    (distinct : (items.map path).Nodup) :
    (items.map path).Pairwise fun left right => utf8Bytes left < utf8Bytes right := by
  rw [List.pairwise_map]
  refine ordered.imp₂ (fun left right before other => ?_) (List.pairwise_map.mp distinct)
  exact utf8Bytes_lt_iff.mpr (lt_of_le_of_ne before other)

end Findings

namespace Survey

/-- What findings have to say about the files of a survey. -/
structure Account (tree : FileTree) (survey : Survey) (language? : Option Language)
    (findings : Findings) : Prop where
  /-- Every file is among the files or among the issues, and only once. -/
  paths : (findings.files.map FileComments.path ++ findings.issues.map Issue.path).Perm
    survey.files.keys
  distinct : survey.files.keys.Nodup
  filesAscending : (findings.files.map FileComments.path).Pairwise
    fun left right => utf8Bytes left < utf8Bytes right
  issuesAscending : (findings.issues.map Issue.path).Pairwise
    fun left right => utf8Bytes left < utf8Bytes right
  extracted : ∀ path language comments, ⟨path, language, comments⟩ ∈ findings.files ↔
    ∃ own text, (path, own) ∈ survey.files.entries ∧ language = language?.getD own ∧
      tree.HasText ⟨path⟩ text ∧ language.extract text = .ok comments
  unterminated : ∀ path, .unterminated path ∈ findings.issues ↔
    ∃ own text, (path, own) ∈ survey.files.entries ∧ tree.HasText ⟨path⟩ text ∧
      (language?.getD own).extract text = .error .blockComment
  unreadable : ∀ path, (∃ reason, .unreadable path reason ∈ findings.issues) ↔
    path ∈ survey.files.keys ∧ ∀ text, ¬tree.HasText ⟨path⟩ text

/-- The trees give the same report on a file. -/
structure ReportAlike (tree other : FileTree) (survey : Survey) (language? : Option Language)
    (path : String) : Prop where
  files : ∀ file : FileComments, file.path = path →
    (file ∈ (extractAll other survey language?).1.files ↔
      file ∈ (extractAll tree survey language?).1.files)
  issues : ∀ issue : Issue, issue.path = path →
    (issue ∈ (extractAll other survey language?).1.issues ↔
      issue ∈ (extractAll tree survey language?).1.issues)

section

variable {tree other : FileTree} {survey : Survey} {language? : Option Language}

theorem mem_results {result : Except Issue FileComments} :
    result ∈ results tree survey language? ↔
      ∃ own, (Findings.pathOf result, own) ∈ survey.files.entries ∧
        extractFile tree (Findings.pathOf result) (language?.getD own) = result := by
  rw [results, List.mem_map]
  constructor
  · rintro ⟨⟨path, own⟩, listed, rfl⟩
    rw [Findings.pathOf_extractFile]
    exact ⟨own, listed, rfl⟩
  · rintro ⟨own, listed, given⟩
    exact ⟨_, listed, given⟩

theorem mem_files {file : FileComments} :
    file ∈ (extractAll tree survey language?).1.files ↔
      .ok file ∈ results tree survey language? := by
  rw [extractAll, Findings.collect, Findings.sortFiles, List.mem_mergeSort, Findings.mem_filesOf]

theorem mem_issues {issue : Issue} :
    issue ∈ (extractAll tree survey language?).1.issues ↔
      .error issue ∈ results tree survey language? := by
  rw [extractAll, Findings.collect, Issue.sort, List.mem_mergeSort, Findings.mem_issuesOf]

theorem pathOf_results :
    (results tree survey language?).map Findings.pathOf = survey.files.keys := by
  rw [results, Table.keys, List.map_map]
  apply List.map_congr_left
  intro entry _
  exact Findings.pathOf_extractFile tree entry.1 _

theorem paths_extractAll :
    ((extractAll tree survey language?).1.files.map FileComments.path ++
      (extractAll tree survey language?).1.issues.map Issue.path).Perm survey.files.keys := by
  rw [← @pathOf_results tree survey language?]
  refine List.Perm.trans ?_ (Findings.paths_perm (results tree survey language?))
  exact ((List.mergeSort_perm _ _).map _).append ((List.mergeSort_perm _ _).map _)

/-- The report on a file is the same in every tree that agrees on the way of its path. -/
theorem results_congr {result : Except Issue FileComments}
    (agree : FileTree.AgreeOn tree other (tree.way ⟨Findings.pathOf result⟩)) :
    result ∈ results other survey language? ↔ result ∈ results tree survey language? := by
  simp only [mem_results, extractFile, FileTree.read_congr agree]

/-- What a survey finds is the same in every tree that reads its files alike. -/
theorem extractAll_congr
    (same : ∀ path own, (path, own) ∈ survey.files.entries → other.read ⟨path⟩ = tree.read ⟨path⟩) :
    extractAll other survey language? = extractAll tree survey language? := by
  have results : results other survey language? = results tree survey language? := by
    apply List.map_congr_left
    intro entry listed
    obtain ⟨path, own⟩ := entry
    simp only [extractFile, same path own listed]
  rw [extractAll, extractAll, results]

theorem account_extractAll (tree : FileTree) (survey : Survey) (language? : Option Language) :
    Account tree survey language? (extractAll tree survey language?).1 := by
  have paths := @paths_extractAll tree survey language?
  have distinct := paths.nodup_iff.mpr survey.files.keys_nodup
  obtain ⟨filesDistinct, issuesDistinct, -⟩ := List.nodup_append.mp distinct
  constructor
  · exact paths
  · exact survey.files.keys_nodup
  · exact Findings.ascending_of_nodup (Findings.sortFiles_ascending _) filesDistinct
  · exact Findings.ascending_of_nodup (Issue.sort_ascending _) issuesDistinct
  · intro path language comments
    simp only [mem_files, mem_results, Findings.pathOf, extractFile_eq_ok_iff]
    constructor
    · rintro ⟨own, listed, -, rfl, text, held, given⟩
      exact ⟨own, text, listed, rfl, held, given⟩
    · rintro ⟨own, text, listed, rfl, held, given⟩
      exact ⟨own, listed, trivial, rfl, text, held, given⟩
  · intro path
    simp only [mem_issues, mem_results, Findings.pathOf, Issue.path,
      extractFile_eq_unterminated_iff]
    constructor
    · rintro ⟨own, listed, text, held, given⟩
      exact ⟨own, text, listed, held, given⟩
    · rintro ⟨own, text, listed, held, given⟩
      exact ⟨own, listed, text, held, given⟩
  · intro path
    simp only [mem_issues, mem_results, Findings.pathOf, Issue.path]
    constructor
    · rintro ⟨reason, own, listed, given⟩
      exact ⟨List.mem_map_of_mem listed, extractFile_eq_unreadable_iff.mp ⟨reason, given⟩⟩
    · rintro ⟨key, textless⟩
      obtain ⟨⟨path, own⟩, listed, rfl⟩ := List.mem_map.mp key
      obtain ⟨reason, given⟩ := extractFile_eq_unreadable_iff.mpr textless
      exact ⟨reason, own, listed, given⟩

/-- Trees that agree on the way of a file's path give the same report on it. -/
theorem reportAlike_of_agreeOn {path : String}
    (agree : FileTree.AgreeOn tree other (tree.way ⟨path⟩)) :
    ReportAlike tree other survey language? path where
  files := by
    rintro file rfl
    rw [mem_files, mem_files, @results_congr tree other survey language? (.ok file) agree]
  issues := by
    rintro issue rfl
    rw [mem_issues, mem_issues, @results_congr tree other survey language? (.error issue) agree]

/-- Every file of a survey is accounted for, and what is said about one of them changes only
with the places its path comes by. If the path has no double dots and meets no link, these are
the place it names and the directories above. -/
theorem extractAll_accounts (tree : FileTree) (survey : Survey) (language? : Option Language) :
    Account tree survey language? (extractAll tree survey language?).1 ∧
    (∀ (path : String) (other : FileTree), FileTree.AgreeOn tree other (tree.way ⟨path⟩) →
      ReportAlike tree other survey language? path) ∧
    ∀ (path : String) (other : FileTree) (place : Location), FileTree.DifferAt tree other place →
      ".." ∉ (Path.mk path).pieces → (∀ passed ∈ tree.way ⟨path⟩, tree.linkAt? passed = none) →
      ¬place <+: tree.spelledPlace ⟨path⟩ → ReportAlike tree other survey language? path := by
  refine ⟨account_extractAll tree survey language?, fun _ _ => reportAlike_of_agreeOn, ?_⟩
  intro path other place differ downward unlinked apart
  apply reportAlike_of_agreeOn
  apply differ.agreeOn
  intro passed
  exact apart (FileTree.prefix_of_mem_way downward unlinked passed)

end

/-- A directory with a source file, one that is cut off and one that is no text. -/
def workshop : FileTree where
  entries := [(["a.c"], .file "// one\n".toUTF8), (["b.js"], .file "/* open".toUTF8),
    (["c.java"], .file ⟨#[0xff]⟩)]

def workshopSurvey : Survey :=
  ⟨.default, .here, .ofList [("./a.c", .c), ("./b.js", .javaScript), ("./c.java", .java)]⟩

/-- Mending the second file and dropping the third leaves the first one's comment. -/
theorem extractAll_accounts_in_workshop :
    Account workshop workshopSurvey none (extractAll workshop workshopSurvey none).1 ∧
      ⟨"./a.c", .c, [⟨" one", .line 1⟩]⟩ ∈
        (extractAll (workshop.put ["b.js"] (.file .empty)) workshopSurvey none).1.files ∧
      ⟨"./a.c", .c, [⟨" one", .line 1⟩]⟩ ∈
        (extractAll (workshop.remove ["c.java"]) workshopSurvey none).1.files := by
  obtain ⟨account, agreeing, separate⟩ := extractAll_accounts workshop workshopSurvey none
  have listed : ⟨"./a.c", .c, [⟨" one", .line 1⟩]⟩ ∈
      (extractAll workshop workshopSurvey none).1.files := by
    rw [account.extracted]
    refine ⟨.c, "// one\n", by decide +kernel, rfl, ?_, by decide +kernel⟩
    exact FileTree.read_eq_ok_iff.mp (by decide +kernel)
  refine ⟨account, ?_, ?_⟩
  · have mended := FileTree.differAt_put workshop ["b.js"] (.file .empty)
    have alike := separate "./a.c" _ _ mended (by decide +kernel) (by decide +kernel)
      (by decide +kernel)
    exact (alike.files _ rfl).mpr listed
  · have dropped : FileTree.DifferAt workshop (workshop.remove ["c.java"]) ["c.java"] :=
      FileTree.differAt_remove (by decide +kernel) (by decide +kernel)
    have alike := agreeing "./a.c" _ (dropped.agreeOn (by decide +kernel))
    exact (alike.files _ rfl).mpr listed

/-- A source file with a link to it. -/
def linked : FileTree where
  entries := [(["a.c"], .file "// one\n".toUTF8), (["b.c"], .link ⟨"a.c"⟩)]

/-- A source file beside a directory. -/
def beside : FileTree where
  entries := [(["sub"], .directory), (["x.c"], .file "// x\n".toUTF8)]

/-- Emptying a file changes the report on a link to it. Removing a directory changes the report
on a file beside it that is listed under a path through there. Neither is above the other. -/
theorem extractAll_heeds_links_and_detours :
    (FileTree.DifferAt linked (linked.put ["a.c"] (.file .empty)) ["a.c"] ∧
      ¬["a.c"] <+: linked.spelledPlace ⟨"./b.c"⟩ ∧
      "./b.c" ∈ (ofConfig linked Path.here .default).1.files.keys ∧
      ¬ReportAlike linked (linked.put ["a.c"] (.file .empty))
        (ofConfig linked Path.here .default).1 none "./b.c") ∧
    FileTree.DifferAt beside (beside.remove ["sub"]) ["sub"] ∧
      ¬["sub"] <+: beside.spelledPlace ⟨"./sub/../x.c"⟩ ∧
      "./sub/../x.c" ∈ (ofConfig beside ⟨"./sub/.."⟩ .default).1.files.keys ∧
      ¬ReportAlike beside (beside.remove ["sub"])
        (ofConfig beside ⟨"./sub/.."⟩ .default).1 none "./sub/../x.c" := by
  refine ⟨⟨FileTree.differAt_put linked ["a.c"] _, by decide +kernel, by decide +kernel, ?_⟩,
    FileTree.differAt_remove (by decide +kernel) (by decide +kernel), by decide +kernel,
    by decide +kernel, ?_⟩
  · intro alike
    have before := mem_files.mp <| (alike.files ⟨"./b.c", .c, []⟩ rfl).mp <|
      mem_files.mpr (by decide +kernel)
    exact absurd before (by decide +kernel)
  · intro alike
    have after := mem_files.mp <| (alike.files ⟨"./sub/../x.c", .c, [⟨" x", .line 1⟩]⟩ rfl).mpr <|
      mem_files.mpr (by decide +kernel)
    exact absurd after (by decide +kernel)

end Survey

end SourceComments
