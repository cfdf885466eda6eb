import SourceComments.Proofs.Command.Scan
import SourceComments.Proofs.Selection

/-! Scanning a directory, and extracting its files one by one.

A scan goes on whatever comes of a file, while the extraction of a single file that cannot be
read is an error. But for that the two say the same about every file that a scan selects. -/

namespace SourceComments

/-- What a survey has to say about one of its files is what the file gives. -/
theorem Survey.extractFile_of_mem {tree : FileTree} {survey : Survey}
    {language? : Option Language} {result : Except Issue FileComments} {own : Language}
    (listed : (Findings.pathOf result, own) ∈ survey.files.entries)
    (member : result ∈ results tree survey language?) :
    extractFile tree (Findings.pathOf result) (language?.getD own) = result := by
  obtain ⟨other, listedToo, given⟩ := mem_results.mp member
  have same := survey.files.entry_unique listed listedToo rfl
  rw [(Prod.mk.inj same).2]
  exact given

namespace Command

/-- The dash for standard input has no extension, so no file of a known language is taken
for it. -/
theorem readsInput_of_language {config : Config} {options : ExtractOptions} {language : Language}
    (known : config.languageFor? options.file = some language) : readsInput options = false := by
  rw [Bool.eq_false_iff]
  intro dash
  have same : options.file.components = (Path.mk "-").components := by
    simpa [readsInput, Path.equivalent] using dash
  have bare : options.file.extension? = none := by
    rw [Path.extension?, Path.fileName?, same]
    decide
  rw [Config.languageFor?, bare] at known
  cases known

/-- The same file among many and on its own. -/
inductive Echoes : Except Issue FileComments → Except Failure Findings → Prop
  | extracted (file : FileComments) : Echoes (.ok file) (.ok ⟨[file], []⟩)
  | unterminated (path : String) :
      Echoes (.error (.unterminated path)) (.ok ⟨[], [.unterminated path]⟩)
  | unreadable (path : String) (fault : FileFault) :
      Echoes (.error (.unreadable path ("Failed to read file: " ++ fault.message)))
        (.error (.unreadableFile ⟨path⟩ fault))

theorem echoes_extractOne {environment : Environment} {options : ExtractOptions}
    {language : Language} (named : options.language? = some language)
    (fromFile : readsInput options = false) :
    Echoes (extractFile environment.tree options.file.text language)
      (extractOne environment options) := by
  simp only [extractOne, extractLanguage, extractSource, named, fromFile, extractFile, bind,
    Except.bind, Bool.false_eq_true, if_false]
  cases environment.tree.read options.file with
  | error fault => exact .unreadable options.file.text fault
  | ok text =>
      simp only [extractText]
      cases language.extract text with
      | ok comments => exact .extracted _
      | error reason => exact .unterminated _

section

variable {path : String} {outcome : Except Failure Findings}

theorem Echoes.of_file {file : FileComments} (echoes : Echoes (.ok file) outcome) :
    outcome = .ok ⟨[file], []⟩ := by
  cases echoes
  rfl

theorem Echoes.of_unterminated (echoes : Echoes (.error (.unterminated path)) outcome) :
    outcome = .ok ⟨[], [.unterminated path]⟩ := by
  cases echoes
  rfl

theorem Echoes.of_unreadable {reason : String}
    (echoes : Echoes (.error (.unreadable path reason)) outcome) :
    ∃ fault, outcome = .error (.unreadableFile ⟨path⟩ fault) ∧
      reason = "Failed to read file: " ++ fault.message := by
  cases echoes with
  | unreadable path fault => exact ⟨fault, rfl, rfl⟩

end

/-- The extraction reports these findings, with this exit status. -/
structure Reports (environment : Environment) (options : ExtractOptions) (findings : Findings)
    (code : Nat) : Prop where
  found : extractOne environment options = .ok findings
  printed : (run environment (.extract options)).output =
    Report.render environment.colors options.format (.extract findings)
  status : (run environment (.extract options)).status.code = code

section

variable {environment : Environment} {options : ExtractOptions}

theorem run_extract_of_ok {findings : Findings}
    (found : extractOne environment options = .ok findings) :
    run environment (.extract options) =
      succeed environment options.format (.extract findings) "" environment.tree := by
  unfold run
  simp only [found]

theorem run_extract_of_error {failure : Failure}
    (failed : extractOne environment options = .error failure) :
    run environment (.extract options) = fail environment failure := by
  unfold run
  simp only [failed]

end

theorem reports_of_extractOne {environment : Environment} {options : ExtractOptions}
    {findings : Findings} (found : extractOne environment options = .ok findings) :
    Reports environment options findings (if findings.issues = [] then 0 else 1) where
  found := found
  printed := by
    rw [run_extract_of_ok found]
    rfl
  status := by
    have status : (run environment (.extract options)).status =
        if findings.issues = [] then .success else .failure := by
      rw [run_extract_of_ok found]
      exact ExitStatus.ofReport_eq rfl
    rw [status]
    split <;> rfl

/-- The extraction says about its file what the findings of a scan say about it. -/
structure Repeats (environment : Environment) (options : ExtractOptions) (findings : Findings) :
    Prop where
  /-- The file is read, not standard input. -/
  fromFile : readsInput options = false
  /-- What was found in the file is found again, and nothing else. -/
  extracted : ∀ file ∈ findings.files, file.path = options.file.text →
    options.language? = some file.language ∧ Reports environment options ⟨[file], []⟩ 0
  /-- A comment left open is the same issue again, and the only one. -/
  unterminated : .unterminated options.file.text ∈ findings.issues →
    Reports environment options ⟨[], [.unterminated options.file.text]⟩ 1
  /-- What cannot be read is an error, for the same reason. -/
  unreadable : ∀ reason, .unreadable options.file.text reason ∈ findings.issues →
    (run environment (.extract options)).status.code = 2 ∧
      (run environment (.extract options)).output = "" ∧
      ∃ fault, (run environment (.extract options)).failure? =
          some (.unreadableFile options.file fault) ∧
        reason = "Failed to read file: " ++ fault.message
  /-- The findings do say something about the file. -/
  covered : (∃ file ∈ findings.files, file.path = options.file.text) ∨
    .unterminated options.file.text ∈ findings.issues ∨
      ∃ reason, .unreadable options.file.text reason ∈ findings.issues

theorem repeats_extractAll {environment : Environment} {options : ExtractOptions}
    {survey : Survey} {language? : Option Language} {own : Language}
    (listed : (options.file.text, own) ∈ survey.files.entries)
    (named : options.language? = some (language?.getD own))
    (fromFile : readsInput options = false) :
    Repeats environment options (Survey.extractAll environment.tree survey language?).1 := by
  have echoes := @echoes_extractOne environment options _ named fromFile
  have given {result : Except Issue FileComments}
      (member : result ∈ Survey.results environment.tree survey language?)
      (here : Findings.pathOf result = options.file.text) :
      extractFile environment.tree options.file.text (language?.getD own) = result := by
    rw [← here] at listed ⊢
    exact Survey.extractFile_of_mem listed member
  constructor
  · exact fromFile
  · intro file member here
    have extracted := given (Survey.mem_files.mp member) here
    rw [extracted] at echoes
    constructor
    · rw [named, (extractFile_eq_ok_iff.mp extracted).2.1]
    · exact reports_of_extractOne echoes.of_file
  · intro member
    rw [given (Survey.mem_issues.mp member) rfl] at echoes
    exact reports_of_extractOne echoes.of_unterminated
  · intro reason member
    rw [given (Survey.mem_issues.mp member) rfl] at echoes
    obtain ⟨fault, failed, same⟩ := echoes.of_unreadable
    rw [run_extract_of_error failed]
    exact ⟨rfl, rfl, fault, rfl, same⟩
  · have paths := @Survey.paths_extractAll environment.tree survey language?
    have told := paths.mem_iff.mpr (List.mem_map_of_mem listed)
    rcases List.mem_append.mp told with extracted | failed
    · obtain ⟨file, member, here⟩ := List.mem_map.mp extracted
      exact .inl ⟨file, member, here⟩
    · obtain ⟨issue, member, here⟩ := List.mem_map.mp failed
      right
      rw [show options.file.text = issue.path from here.symm]
      cases issue with
      | unterminated path => exact .inl member
      | unreadable path reason => exact .inr ⟨reason, member⟩

/-- Every file that a scan selects is extracted on its own, in the language the scan reads it
in, with the result the scan has for it. A file that the scan cannot read is an error. -/
theorem run_extract_repeats_scan (environment : Environment) (options : ScanOptions)
    (findings : Findings) (notices : List Notice)
    (scanned : scanRoot environment.tree options = .ok (findings, notices)) :
    (run environment (.scan options)).output =
      Report.render environment.colors options.format (.scan findings) ∧
    ∃ config, Config.Applies environment.tree (options.root?.getD Path.here) config ∧
      ∀ path own, (path, own) ∈ (Selection.select environment.tree
          (options.root?.getD Path.here) config).files.entries →
        ∀ (input : ByteArray) (colors : Bool) (format : OutputFormat),
          Repeats ⟨environment.tree, input, colors⟩
            ⟨⟨path⟩, some (options.language?.getD own), format⟩ findings := by
  obtain ⟨config, applies, rfl⟩ := applies_of_scanRoot scanned
  refine ⟨(run_scan_of_applies applies).2, config, applies, ?_⟩
  intro path own listed input colors format
  obtain ⟨-, -, known, -⟩ := Selection.mem_entries.mp listed
  exact repeats_extractAll listed rfl (readsInput_of_language known)

/-- In the workshop, the first file gives its comment again, the second is left open again and
the third cannot be read. -/
theorem run_extract_repeats_scan_in_workshop :
    Reports ⟨Survey.workshop, .empty, false⟩ ⟨⟨"./a.c"⟩, some .c, .json⟩
        ⟨[⟨"./a.c", .c, [⟨" one", .line 1⟩]⟩], []⟩ 0 ∧
      Reports ⟨Survey.workshop, .empty, true⟩ ⟨⟨"./b.js"⟩, some .javaScript, .text⟩
        ⟨[], [.unterminated "./b.js"]⟩ 1 ∧
      (run ⟨Survey.workshop, .empty, false⟩
        (.extract ⟨⟨"./c.java"⟩, some .java, .text⟩)).status.code = 2 := by
  have missing : Config.find? Survey.workshop Path.here = none := by decide +kernel
  obtain ⟨notices, scanned⟩ := @scanRoot_of_applies {} _ Survey.workshop (.default missing)
  obtain ⟨-, config, applies, repeats⟩ :=
    run_extract_repeats_scan ⟨Survey.workshop, .empty, false⟩ {} _ notices scanned
  obtain rfl := applies.eq_default missing
  refine ⟨?_, ?_, ?_⟩
  · have again := repeats "./a.c" .c (by decide +kernel) .empty false .json
    exact (again.extracted _ (Survey.mem_files.mpr (by decide +kernel)) rfl).2
  · have again := repeats "./b.js" .javaScript (by decide +kernel) .empty true .text
    exact again.unterminated (Survey.mem_issues.mpr (by decide +kernel))
  · have again := repeats "./c.java" .java (by decide +kernel) .empty false .text
    exact (again.unreadable "Failed to read file: stream did not contain valid UTF-8"
      (Survey.mem_issues.mpr (by decide +kernel))).1

end Command

end SourceComments
