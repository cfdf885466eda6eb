import SourceComments.Proofs.Config.Loading
import SourceComments.Proofs.Report

/-! What the exit status of a scan says.

A scan without a configuration to use is an error and prints nothing. Otherwise it is a
success if the comments of every selected file can be extracted and a failure if not, and
what it prints says which of the two. -/

namespace SourceComments

/-- The path leads to a text that can be read through in the language. -/
def FileTree.Extracts (tree : FileTree) (path : String) (language : Language) : Prop :=
  ∃ text comments, tree.HasText ⟨path⟩ text ∧ language.extract text = .ok comments

theorem Survey.issues_eq_nil_iff {tree : FileTree} {survey : Survey}
    {language? : Option Language} :
    (extractAll tree survey language?).1.issues = [] ↔
      ∀ path own, (path, own) ∈ survey.files.entries →
        tree.Extracts path (language?.getD own) := by
  simp only [List.eq_nil_iff_forall_not_mem, mem_issues]
  constructor
  · intro clean path own listed
    cases extracted : extractFile tree path (language?.getD own) with
    | error issue =>
        exact absurd (List.mem_map.mpr ⟨(path, own), listed, extracted⟩) (clean issue)
    | ok file =>
        obtain ⟨-, -, text, held, given⟩ := extractFile_eq_ok_iff.mp extracted
        exact ⟨text, file.comments, held, given⟩
  · intro complete issue member
    obtain ⟨own, listed, failed⟩ := mem_results.mp member
    obtain ⟨text, comments, held, given⟩ := complete _ own listed
    have extracted : extractFile tree (Findings.pathOf (.error issue)) (language?.getD own) =
        .ok ⟨_, _, comments⟩ :=
      extractFile_eq_ok_iff.mpr ⟨rfl, rfl, text, held, given⟩
    rw [failed] at extracted
    cases extracted

namespace Command

/-- What a scan finds under a configuration. -/
def scanFindings (tree : FileTree) (options : ScanOptions) (config : Config) : Findings :=
  let root := options.root?.getD Path.here
  (Survey.extractAll tree ⟨config, root, (Selection.select tree root config).files⟩
    options.language?).1

section

variable {environment : Environment} {options : ScanOptions} {config : Config}

theorem scanFindings_clean_iff {tree : FileTree} :
    (scanFindings tree options config).issues = [] ↔ ∀ path own,
      (path, own) ∈
          (Selection.select tree (options.root?.getD Path.here) config).files.entries →
        tree.Extracts path (options.language?.getD own) :=
  Survey.issues_eq_nil_iff

theorem scanRoot_of_applies {tree : FileTree}
    (applies : Config.Applies tree (options.root?.getD Path.here) config) :
    ∃ notices, scanRoot tree options = .ok (scanFindings tree options config, notices) := by
  obtain ⟨fromFile, loaded⟩ := Config.load_eq_ok_iff.mpr applies
  unfold scanRoot Survey.prepare
  simp only [loaded]
  exact ⟨_, rfl⟩

theorem scanRoot_of_unusable {tree : FileTree}
    (broken : Config.Unusable tree (options.root?.getD Path.here)) :
    ∃ failure, scanRoot tree options = .error failure := by
  obtain ⟨fault, failed⟩ := Config.load_eq_error_iff.mpr broken
  refine ⟨.config fault, ?_⟩
  unfold scanRoot Survey.prepare
  simp only [failed]

theorem run_scan_of_ok {findings : Findings} {notices : List Notice}
    (scanned : scanRoot environment.tree options = .ok (findings, notices)) :
    run environment (.scan options) = succeed environment options.format (.scan findings)
      (Notice.render options.verbose environment.colors notices) environment.tree := by
  unfold run
  simp only [scanned]

theorem run_scan_of_error {failure : Failure}
    (refused : scanRoot environment.tree options = .error failure) :
    run environment (.scan options) = fail environment failure := by
  unfold run
  simp only [refused]

theorem status_run_scan :
    (run environment (.scan options)).status =
      match scanRoot environment.tree options with
      | .error _ => .error
      | .ok (findings, _) => .ofReport (.scan findings) := by
  cases scanned : scanRoot environment.tree options with
  | error failure =>
      rw [run_scan_of_error scanned]
      rfl
  | ok found =>
      rw [run_scan_of_ok scanned]
      rfl

/-- A scan that does not fail has a configuration to go by. -/
theorem applies_of_scanRoot {tree : FileTree} {findings : Findings} {notices : List Notice}
    (scanned : scanRoot tree options = .ok (findings, notices)) :
    ∃ config, Config.Applies tree (options.root?.getD Path.here) config ∧
      findings = scanFindings tree options config := by
  have usable : ¬Config.Unusable tree (options.root?.getD Path.here) := by
    intro broken
    obtain ⟨failure, refused⟩ := scanRoot_of_unusable broken
    rw [refused] at scanned
    cases scanned
  obtain ⟨config, applies⟩ := Config.not_unusable_iff.mp usable
  obtain ⟨others, found⟩ := scanRoot_of_applies applies
  rw [found] at scanned
  obtain ⟨same, -⟩ := Prod.mk.inj (Except.ok.inj scanned)
  exact ⟨config, applies, same.symm⟩

theorem run_scan_of_applies
    (applies : Config.Applies environment.tree (options.root?.getD Path.here) config) :
    (run environment (.scan options)).status =
        (if (scanFindings environment.tree options config).issues = [] then .success
          else .failure) ∧
      (run environment (.scan options)).output =
        Report.render environment.colors options.format
          (.scan (scanFindings environment.tree options config)) := by
  obtain ⟨notices, scanned⟩ := scanRoot_of_applies applies
  rw [run_scan_of_ok scanned]
  constructor
  · exact ExitStatus.ofReport_eq rfl
  · rfl

theorem run_scan_of_unusable
    (broken : Config.Unusable environment.tree (options.root?.getD Path.here)) :
    (run environment (.scan options)).status = .error ∧
      (run environment (.scan options)).output = "" := by
  obtain ⟨failure, refused⟩ := scanRoot_of_unusable broken
  rw [run_scan_of_error refused]
  constructor
  · rfl
  · rfl

end

/-- What the exit status of a scan says about the root, and where the report repeats it. -/
structure ScanStatus (environment : Environment) (options : ScanOptions) (root : Path)
    (outcome : Outcome) : Prop where
  /-- The status is 2 if the configuration file found for the root is of no use. -/
  refused : outcome.status.code = 2 ↔ Config.Unusable environment.tree root
  silent : outcome.status.code = 2 → outcome.output = ""
  /-- Otherwise a configuration applies, and the files it selects decide. -/
  decided : ¬Config.Unusable environment.tree root →
    ∃ config, Config.Applies environment.tree root config ∧
      (outcome.status.code = 1 ↔
        ∃ path own, (path, own) ∈ (Selection.select environment.tree root config).files.entries ∧
          ¬environment.tree.Extracts path (options.language?.getD own)) ∧
      (outcome.status.code = 0 ↔
        ∀ path own, (path, own) ∈ (Selection.select environment.tree root config).files.entries →
          environment.tree.Extracts path (options.language?.getD own))
  /-- The last line of a plain report starts with the mark of success or does not. -/
  marked : outcome.status.code ≠ 2 → environment.colors = false → options.format = .text →
    (Report.successMark.toList <+: Report.lastLine outcome.output ↔ outcome.status.code = 0)
  /-- A JSON report is a document with a list of issues, in whatever way it is taken for one. -/
  listed : outcome.status.code ≠ 2 → options.format = .json →
    (∃ files issues, outcome.output = Report.listing files issues) ∧
      ∀ files issues, outcome.output = Report.listing files issues →
        (issues = [] ↔ outcome.status.code = 0)

section

variable {environment : Environment} {options : ScanOptions} {config : Config}

theorem code_run_scan
    (applies : Config.Applies environment.tree (options.root?.getD Path.here) config) :
    (run environment (.scan options)).status.code =
      if (scanFindings environment.tree options config).issues = [] then 0 else 1 := by
  rw [(run_scan_of_applies applies).1]
  split <;> rfl

theorem scanStatus_of_unusable
    (broken : Config.Unusable environment.tree (options.root?.getD Path.here)) :
    ScanStatus environment options (options.root?.getD Path.here)
      (run environment (.scan options)) := by
  obtain ⟨status, output⟩ := run_scan_of_unusable broken
  have code : (run environment (.scan options)).status.code = 2 := by
    rw [status]
    rfl
  constructor
  · exact iff_of_true code broken
  · exact fun _ => output
  · exact fun usable => absurd broken usable
  · exact fun other => absurd code other
  · exact fun other => absurd code other

theorem scanStatus_of_applies
    (applies : Config.Applies environment.tree (options.root?.getD Path.here) config) :
    ScanStatus environment options (options.root?.getD Path.here)
      (run environment (.scan options)) := by
  have code := code_run_scan applies
  have output := (run_scan_of_applies applies).2
  have clean := @scanFindings_clean_iff options config environment.tree
  have success : (run environment (.scan options)).status.code = 0 ↔
      (scanFindings environment.tree options config).issues = [] := by
    rw [code]
    split <;> simp_all
  have failure : (run environment (.scan options)).status.code = 1 ↔
      ¬(scanFindings environment.tree options config).issues = [] := by
    rw [code]
    split <;> simp_all
  have decided : (run environment (.scan options)).status.code ≠ 2 := by
    rw [code]
    split <;> decide
  constructor
  · exact iff_of_false decided (Config.not_unusable_iff.mpr ⟨config, applies⟩)
  · exact fun other => absurd other decided
  · intro _
    refine ⟨config, applies, ?_, success.trans clean⟩
    rw [failure, clean]
    simp only [not_forall, exists_prop]
  · intro _ plain text
    rw [success, output, plain, text]
    exact Report.lastLine_render _
  · intro _ json
    rw [output, json, Report.render_json]
    refine ⟨⟨_, _, rfl⟩, ?_⟩
    intro files issues same
    rw [success, ← Report.listing_issues same, List.map_eq_nil_iff]

end

theorem scanStatus_run (environment : Environment) (options : ScanOptions) :
    ScanStatus environment options (options.root?.getD Path.here)
      (run environment (.scan options)) := by
  by_cases broken : Config.Unusable environment.tree (options.root?.getD Path.here)
  · exact scanStatus_of_unusable broken
  · obtain ⟨config, applies⟩ := Config.not_unusable_iff.mp broken
    exact scanStatus_of_applies applies

/-- The exit status of a scan is 2, with nothing printed, exactly if the configuration file
found for the root is of no use. Otherwise it is 1 if some selected file cannot be extracted
and 0 if all can, and the report says which. Neither the form of the report nor colours nor
the wish for notices changes the status. -/
theorem run_scan_status (environment : Environment) (options : ScanOptions) :
    ScanStatus environment options (options.root?.getD Path.here)
      (run environment (.scan options)) ∧
    ∀ (input : ByteArray) (colors verbose : Bool) (format : OutputFormat),
      (run ⟨environment.tree, input, colors⟩ (.scan { options with verbose, format })).status =
        (run environment (.scan options)).status := by
  refine ⟨scanStatus_run environment options, ?_⟩
  intro input colors verbose format
  have same : scanRoot environment.tree { options with verbose, format } =
      scanRoot environment.tree options := by
    unfold scanRoot
    rfl
  rw [status_run_scan, status_run_scan, same]

/-- The workshop has a file that is cut off: a scan of it fails, its report does not close with
the mark of success, and it fails in JSON and in colours too. -/
theorem run_scan_status_in_workshop :
    (run ⟨Survey.workshop, .empty, false⟩ (.scan {})).status.code = 1 ∧
      ¬Report.successMark.toList <+:
        Report.lastLine (run ⟨Survey.workshop, .empty, false⟩ (.scan {})).output ∧
      (run ⟨Survey.workshop, .empty, true⟩ (.scan { verbose := true, format := .json })).status =
        .failure := by
  obtain ⟨told, same⟩ := run_scan_status ⟨Survey.workshop, .empty, false⟩ {}
  have missing : Config.find? Survey.workshop Path.here = none := by decide +kernel
  have usable : ¬Config.Unusable Survey.workshop Path.here :=
    Config.not_unusable_iff.mpr ⟨_, .default missing⟩
  obtain ⟨config, applies, failed, -⟩ := told.decided usable
  have cut : ¬Survey.workshop.Extracts "./b.js" .javaScript := by
    intro extracts
    obtain ⟨text, comments, held, given⟩ := extracts
    have read : Survey.workshop.read ⟨"./b.js"⟩ = .ok "/* open" := by decide +kernel
    rw [FileTree.read_eq_ok_iff.mpr held] at read
    obtain rfl := Except.ok.inj read
    have open_ : Language.javaScript.extract "/* open" = .error .blockComment := by
      decide +kernel
    rw [open_] at given
    cases given
  obtain rfl := applies.eq_default missing
  have code : (run ⟨Survey.workshop, .empty, false⟩ (.scan {})).status.code = 1 :=
    failed.mpr ⟨"./b.js", .javaScript, by decide +kernel, cut⟩
  refine ⟨code, ?_, ?_⟩
  · rw [told.marked (by rw [code]; decide) rfl rfl, code]
    decide
  · rw [same .empty true true .json]
    revert code
    cases (run ⟨Survey.workshop, .empty, false⟩ (.scan {})).status <;> decide

end Command

end SourceComments
