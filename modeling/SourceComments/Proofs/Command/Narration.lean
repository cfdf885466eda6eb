import SourceComments.Proofs.Command.Scan

/-! A scan that speaks while it works.

Here each stage of a scan asks whether it is to speak at the point where it has something to
say, between the steps that build its result. Every loop is followed by what it has reached
after its first entries and what it has said about them. So the stages reach what they reach in
silence, and what they say on the way is what a scan reports at its end. -/

namespace SourceComments

theorem Notice.render_append (verbose colors : Bool) (front back : List Notice) :
    render verbose colors (front ++ back) =
      render verbose colors front ++ render verbose colors back := by
  simp only [render, List.filter_append, List.map_append, String.join_append]

/-- A computation that adds to a text as it goes. -/
abbrev Narrated := StateM String

namespace Narrated

variable (verbose colors : Bool)

/-- Adds a line. -/
def say (line : String) : Narrated Unit := modify (· ++ (line ++ "\n"))

/-- A computation with this value that adds the notices to whatever was said before. -/
def Tells {α : Type} (action : Narrated α) (value : α) (notices : List Notice) : Prop :=
  ∀ told, action told = (value, told ++ Notice.render verbose colors notices)

section

open Selection

variable (tree : FileTree) (base : Path)

def readIgnore (ignores : Ignores) (entry : String) : Narrated Ignores := do
  if Glob.isPattern entry then
    match readPattern entry with
    | .ok tokens => pure { ignores with patterns := ignores.patterns ++ [tokens] }
    | .error notice =>
        if verbose then say (notice.text verbose colors)
        pure ignores
  else pure { ignores with paths := ignores.paths ++ [base.join ⟨entry⟩] }

def addRoots (roots : List Path) (entry : String) : Narrated (List Path) := do
  match rootsOf tree base entry with
  | .ok paths => pure (roots ++ paths)
  | .error notice =>
      if verbose then say (notice.text verbose colors)
      pure roots

def findRoots (config : Config) : Narrated (List Path) :=
  if config.includes.isEmpty then pure [base]
  else config.includes.foldlM (addRoots verbose colors tree base) []

def visit (config : Config) (ignores : Ignores) (selection : Selection)
    (entry : FileTree.Visit) : Narrated Selection := do
  match entry with
  | .error (path, fault) =>
      if verbose then say ((Notice.inaccessible path fault).text verbose colors)
      pure { selection with skipped := selection.skipped + 1 }
  | .ok path =>
      match languageOf? tree config ignores path with
      | some language => pure { selection with files := selection.files.insert path.text language }
      | none => pure selection

/-- Selects files, speaking of each entry that cannot be used when it comes up. -/
def select (config : Config) : Narrated Selection := do
  let ignores ← config.ignores.foldlM (readIgnore verbose colors base) ⟨[], []⟩
  let roots ← findRoots verbose colors tree base config
  roots.foldlM
    (fun selection root =>
      (tree.walk root).foldlM (visit verbose colors tree config ignores) selection)
    ⟨.empty, 0⟩

/-- Skipped paths are counted aloud in any case. -/
def survey (config : Config) : Narrated Survey := do
  let selection ← select verbose colors tree base config
  if 0 < selection.skipped then
    say ((Notice.skipped selection.skipped).text verbose colors)
  pure ⟨config, base, selection.files⟩

def keep (findings : Findings) (result : Except Issue FileComments) : Narrated Findings := do
  match result with
  | .ok file => pure { findings with files := findings.files ++ [file] }
  | .error issue =>
      if verbose then say ((Notice.failed issue).text verbose colors)
      pure { findings with issues := findings.issues ++ [issue] }

def extractAll (survey : Survey) (language? : Option Language) : Narrated Findings := do
  let findings ← (survey.results tree language?).foldlM (keep verbose colors) ⟨[], []⟩
  pure ⟨Findings.sortFiles findings.files, Issue.sort findings.issues⟩

/-- The survey under a loaded configuration. -/
def prepare (loaded : Config.Loaded) : Narrated Survey := do
  if verbose && !loaded.fromFile then say (Notice.defaultConfig.text verbose colors)
  survey verbose colors tree base loaded.config

def scanSurvey (survey : Survey) (language? : Option Language) : Narrated Findings := do
  if verbose then say ((Notice.scanning survey.files.entries.length).text verbose colors)
  extractAll verbose colors tree survey language?

def scanLoaded (loaded : Config.Loaded) (language? : Option Language) : Narrated Findings := do
  scanSurvey verbose colors tree (← prepare verbose colors tree base loaded) language?

end

section

variable {verbose colors : Bool} {α β σ : Type} {value : α} {notices : List Notice}

theorem tells_pure (value : α) : Tells verbose colors (pure value) value [] := by
  intro told
  rw [Notice.render, List.filter_nil, List.map_nil, String.join_nil, String.append_empty]
  rfl

theorem Tells.bind {action : Narrated α} {next : α → Narrated β} {result : β}
    {more : List Notice} (first : Tells verbose colors action value notices)
    (second : Tells verbose colors (next value) result more) :
    Tells verbose colors (action >>= next) result (notices ++ more) := by
  intro told
  calc (action >>= next) told
      = next (action told).1 (action told).2 := rfl
    _ = (result, told ++ Notice.render verbose colors (notices ++ more)) := by
        rw [first, second, Notice.render_append, String.append_assoc]

theorem tells_say {notice : Notice} (shown : (verbose || notice.isAlwaysShown) = true) :
    Tells verbose colors (say (notice.text verbose colors)) () [notice] := by
  intro told
  have single : Notice.render verbose colors [notice] = notice.text verbose colors ++ "\n" := by
    rw [Notice.render, List.filter_singleton, shown]
    simp
  rw [single]
  rfl

theorem Tells.congr {action : Narrated α} {other : α} {others : List Notice}
    (given : Tells verbose colors action value notices) (same : value = other)
    (heard : notices = others) : Tells verbose colors action other others := by
  subst same heard
  exact given

/-- A notice that is not for everybody, said on request, and the rest of the computation. -/
theorem Tells.hint {notice : Notice} {next : Unit → Narrated α}
    (hidden : notice.isAlwaysShown = false)
    (rest : Tells verbose colors (next ()) value notices) :
    Tells verbose colors
      (if verbose then do next (← say (notice.text verbose colors)) else next ()) value
      (notice :: notices) := by
  cases verbose with
  | true => exact (tells_say rfl).bind rest
  | false =>
      intro told
      have unheard : Notice.render false colors (notice :: notices) =
          Notice.render false colors notices := by
        rw [Notice.render, List.filter_cons_of_neg (by simp [hidden]), Notice.render]
      rw [unheard]
      exact rest told

theorem tells_hint {notice : Notice} (hidden : notice.isAlwaysShown = false) (value : α) :
    Tells verbose colors
      (if verbose then do let _ ← say (notice.text verbose colors); pure value else pure value)
      value [notice] :=
  .hint hidden (tells_pure value)

/-- A loop, by what it has reached after its first items and what it says about the others. -/
theorem tells_foldlM {step : σ → α → Narrated σ} (reached : List α → σ)
    (said : List α → List Notice)
    (joined : ∀ front back, said (front ++ back) = said front ++ said back)
    (each : ∀ done item,
      Tells verbose colors (step (reached done) item) (reached (done ++ [item])) (said [item]))
    (done items : List α) :
    Tells verbose colors (items.foldlM step (reached done)) (reached (done ++ items))
      (said items) := by
  induction items generalizing done with
  | nil =>
      have silent : said [] = [] := List.self_eq_append_right.mp (joined [] [])
      rw [silent, List.append_nil]
      exact tells_pure (reached done)
  | cons item rest ih =>
      have split : said (item :: rest) = said [item] ++ said rest := joined [item] rest
      rw [List.foldlM_cons, List.append_cons done item rest, split]
      exact (each done item).bind (ih (done ++ [item]))

end

section

open Selection

variable {verbose colors : Bool} {tree : FileTree} {base : Path} {config : Config}

theorem not_shown_of_readPattern {entry : String} {notice : Notice}
    (refused : readPattern entry = .error notice) : notice.isAlwaysShown = false := by
  rw [readPattern] at refused
  split at refused
  · cases refused
  · cases refused
    rfl

theorem not_shown_of_rootsOf {entry : String} {notice : Notice}
    (refused : rootsOf tree base entry = .error notice) : notice.isAlwaysShown = false := by
  simp only [rootsOf] at refused
  split at refused
  · split at refused
    · cases refused
    · cases refused
      rfl
  · split at refused
    · cases refused
    · cases refused
      rfl

theorem tells_readIgnores :
    Tells verbose colors (config.ignores.foldlM (readIgnore verbose colors base) ⟨[], []⟩)
      (Ignores.ofConfig base config) (notices (readPatterns config)) := by
  -- After some entries, the state is what a configuration with only these leaves out.
  refine tells_foldlM (fun entries => Ignores.ofConfig base { config with ignores := entries })
    (fun entries => notices (readPatterns { config with ignores := entries })) ?_ ?_ []
    config.ignores
  · intro front back
    simp only [readPatterns, List.filter_append, List.map_append, notices, List.filterMap_append]
  intro done entry
  rw [readIgnore]
  by_cases pattern : Glob.isPattern entry = true
  · rw [if_pos pattern]
    cases read : readPattern entry with
    | ok tokens =>
        refine (tells_pure _).congr ?_ ?_ <;>
          simp [Ignores.ofConfig, readPatterns, pattern, read, successes, notices]
    | error notice =>
        refine (tells_hint (not_shown_of_readPattern read) _).congr ?_ ?_ <;>
          simp [Ignores.ofConfig, readPatterns, pattern, read, successes, notices]
  · rw [if_neg pattern]
    refine (tells_pure _).congr ?_ ?_ <;>
      simp [Ignores.ofConfig, readPatterns, pattern, successes, notices]

theorem tells_findRoots :
    Tells verbose colors (findRoots verbose colors tree base config)
      (successes (roots tree base config)).flatten (notices (roots tree base config)) := by
  rw [findRoots, roots]
  split
  · exact tells_pure [base]
  refine tells_foldlM (fun entries => (successes (entries.map (rootsOf tree base))).flatten)
    (fun entries => notices (entries.map (rootsOf tree base))) ?_ ?_ [] config.includes
  · intro front back
    simp only [List.map_append, notices, List.filterMap_append]
  intro done entry
  rw [addRoots]
  cases found : rootsOf tree base entry with
  | ok paths =>
      refine (tells_pure _).congr ?_ ?_ <;> simp [found, successes, notices]
  | error notice =>
      refine (tells_hint (not_shown_of_rootsOf found) _).congr ?_ ?_ <;>
        simp [found, successes, notices]

/-- A visit, with the notice of one that failed. -/
def reading : FileTree.Visit → Except Notice Path
  | .ok path => .ok path
  | .error (path, fault) => .error (.inaccessible path fault)

theorem walks_eq : walks tree base config =
    ((successes (roots tree base config)).flatten.flatMap tree.walk).map reading := by
  rw [List.map_flatMap]
  rfl

/-- What is selected after these visits. -/
def selected (tree : FileTree) (config : Config) (ignores : Ignores)
    (visits : List FileTree.Visit) : Selection where
  files := .ofList ((successes (visits.map reading)).filterMap fun path =>
    (languageOf? tree config ignores path).map fun language => (path.text, language))
  skipped := (notices (visits.map reading)).length

theorem notices_reading_append (front back : List FileTree.Visit) :
    notices ((front ++ back).map reading) =
      notices (front.map reading) ++ notices (back.map reading) := by
  simp only [List.map_append, notices, List.filterMap_append]

variable {ignores : Ignores}

theorem tells_visit (done : List FileTree.Visit) (entry : FileTree.Visit) :
    Tells verbose colors
      (visit verbose colors tree config ignores (selected tree config ignores done) entry)
      (selected tree config ignores (done ++ [entry])) (notices ([entry].map reading)) := by
  unfold visit
  match entry with
  | .error (path, fault) =>
      refine (tells_hint rfl _).congr ?_ ?_ <;>
        simp [selected, reading, successes, notices]
  | .ok path =>
      cases chosen : languageOf? tree config ignores path with
      | some language =>
          simp only [chosen]
          refine (tells_pure _).congr ?_ ?_ <;>
            simp [selected, reading, successes, notices, chosen, Table.ofList]
      | none =>
          simp only [chosen]
          refine (tells_pure _).congr ?_ ?_ <;>
            simp [selected, reading, successes, notices, chosen]

theorem tells_walk (roots : List Path) :
    Tells verbose colors
      (roots.foldlM
        (fun selection root =>
          (tree.walk root).foldlM (visit verbose colors tree config ignores) selection)
        ⟨.empty, 0⟩)
      (selected tree config ignores (roots.flatMap tree.walk))
      (notices ((roots.flatMap tree.walk).map reading)) := by
  refine tells_foldlM (fun roots => selected tree config ignores (roots.flatMap tree.walk))
    (fun roots => notices ((roots.flatMap tree.walk).map reading)) ?_ ?_ [] roots
  · intro front back
    rw [List.flatMap_append, notices_reading_append]
  · intro done root
    rw [List.flatMap_append, List.flatMap_singleton]
    exact tells_foldlM (selected tree config ignores)
      (fun visits => notices (visits.map reading)) notices_reading_append tells_visit
      (done.flatMap tree.walk) (tree.walk root)

theorem tells_select :
    Tells verbose colors (select verbose colors tree base config)
      (Selection.select tree base config) (Selection.report tree base config) := by
  rw [Selection.report, Selection.select, walks_eq, List.append_assoc]
  exact tells_readIgnores.bind (tells_findRoots.bind (tells_walk _))

theorem tells_survey :
    Tells verbose colors (survey verbose colors tree base config)
      (Survey.ofConfig tree base config).1 (Survey.ofConfig tree base config).2 := by
  refine tells_select.bind ?_
  by_cases skipping : 0 < (Selection.select tree base config).skipped
  · rw [if_pos skipping, if_pos skipping]
    exact (tells_say (Bool.or_true verbose)).bind (tells_pure _)
  · rw [if_neg skipping, if_neg skipping]
    exact tells_pure _

theorem tells_keep (results : List (Except Issue FileComments)) :
    Tells verbose colors (results.foldlM (keep verbose colors) ⟨[], []⟩)
      ⟨Findings.filesOf results, Findings.issuesOf results⟩
      ((Findings.issuesOf results).map .failed) := by
  refine tells_foldlM
    (fun results => Findings.mk (Findings.filesOf results) (Findings.issuesOf results))
    (fun results => (Findings.issuesOf results).map .failed) ?_ ?_ [] results
  · intro front back
    simp only [Findings.issuesOf, List.filterMap_append, List.map_append]
  intro done result
  cases result with
  | ok file =>
      refine (tells_pure _).congr ?_ ?_ <;> simp [Findings.filesOf, Findings.issuesOf]
  | error issue =>
      refine (tells_hint rfl _).congr ?_ ?_ <;> simp [Findings.filesOf, Findings.issuesOf]

theorem tells_extractAll (found : Survey) (language? : Option Language) :
    Tells verbose colors (extractAll verbose colors tree found language?)
      (found.extractAll tree language?).1 (found.extractAll tree language?).2 := by
  rw [← List.append_nil (found.extractAll tree language?).2]
  exact (tells_keep _).bind (tells_pure _)

theorem tells_prepare (loaded : Config.Loaded) :
    Tells verbose colors (prepare verbose colors tree base loaded)
      (Survey.ofConfig tree base loaded.config).1
      ((if loaded.fromFile then [] else [.defaultConfig]) ++
        (Survey.ofConfig tree base loaded.config).2) := by
  rw [prepare]
  cases loaded.fromFile with
  | true =>
      rw [Bool.not_true, Bool.and_false]
      exact tells_survey
  | false =>
      rw [Bool.not_false, Bool.and_true]
      exact .hint rfl tells_survey

theorem tells_scanSurvey (found : Survey) (language? : Option Language) :
    Tells verbose colors (scanSurvey verbose colors tree found language?)
      (found.extractAll tree language?).1
      (.scanning found.files.entries.length :: (found.extractAll tree language?).2) := by
  rw [scanSurvey]
  exact .hint rfl (tells_extractAll found language?)

theorem tells_scanLoaded (loaded : Config.Loaded) (language? : Option Language) :
    Tells verbose colors (scanLoaded verbose colors tree base loaded language?)
      ((Survey.ofConfig tree base loaded.config).1.extractAll tree language?).1
      ((if loaded.fromFile then [] else [.defaultConfig]) ++
        (Survey.ofConfig tree base loaded.config).2 ++
          .scanning (Survey.ofConfig tree base loaded.config).1.files.entries.length ::
            ((Survey.ofConfig tree base loaded.config).1.extractAll tree language?).2) := by
  rw [scanLoaded]
  exact (tells_prepare loaded).bind (tells_scanSurvey _ language?)

end

/-- A scan whose stages speak for themselves. -/
def scan (environment : Environment) (options : ScanOptions) : Outcome :=
  let root := options.root?.getD Path.here
  match Config.load environment.tree root with
  | .error fault => Command.fail environment (.config fault)
  | .ok loaded =>
      let (findings, told) := scanLoaded options.verbose environment.colors environment.tree root
        loaded options.language? ""
      Command.succeed environment options.format (.scan findings) told environment.tree

theorem scanRoot_of_loaded {tree : FileTree} {options : ScanOptions} {loaded : Config.Loaded}
    (loading : Config.load tree (options.root?.getD Path.here) = .ok loaded) :
    ∃ findings notices, Command.scanRoot tree options = .ok (findings, notices) ∧
      ∀ verbose colors, Tells verbose colors
        (scanLoaded verbose colors tree (options.root?.getD Path.here) loaded options.language?)
        findings notices := by
  refine ⟨_, _, ?_, fun _ _ => tells_scanLoaded loaded options.language?⟩
  simp only [Command.scanRoot, Survey.prepare, loading]

/-- The notices of the stages, said one by one, are those that a scan shows at its end. -/
theorem scan_eq_run (environment : Environment) (options : ScanOptions) :
    scan environment options = Command.run environment (.scan options) := by
  cases loading : Config.load environment.tree (options.root?.getD Path.here) with
  | error fault =>
      have refused : Command.scanRoot environment.tree options = .error (.config fault) := by
        simp only [Command.scanRoot, Survey.prepare, loading]
      rw [Command.run_scan_of_error refused]
      simp only [scan, loading]
  | ok loaded =>
      obtain ⟨findings, notices, scanned, told⟩ := scanRoot_of_loaded loading
      rw [Command.run_scan_of_ok scanned]
      simp only [scan, loading, told _ _ "", String.empty_append]

end Narrated

/-- All that an outcome is apart from what was said on the way. -/
def Outcome.silent (outcome : Outcome) : Outcome := { outcome with errors := "" }

namespace Command

section

variable (environment : Environment) (options : ScanOptions)

theorem scanRoot_verbose (tree : FileTree) (verbose : Bool) :
    scanRoot tree { options with verbose := verbose } = scanRoot tree options :=
  rfl

/-- The same notices arise in any case. It is only asked which of them to show. -/
theorem run_scan_verbose : ∃ silent notices, ∀ verbose,
    (run environment (.scan { options with verbose := verbose })).silent = silent ∧
      (run environment (.scan { options with verbose := verbose })).errors =
        Notice.render verbose environment.colors notices := by
  cases scanned : scanRoot environment.tree options with
  | error failure =>
      refine ⟨(fail environment failure).silent, [], fun verbose => ?_⟩
      rw [run_scan_of_error ((scanRoot_verbose options _ verbose).trans scanned)]
      exact ⟨rfl, rfl⟩
  | ok found =>
      obtain ⟨findings, notices⟩ := found
      refine ⟨succeed environment options.format (.scan findings) "" environment.tree, notices,
        fun verbose => ?_⟩
      rw [run_scan_of_ok ((scanRoot_verbose options _ verbose).trans scanned)]
      exact ⟨rfl, rfl⟩

/-- Whether a scan speaks changes nothing but what it says: not what its stages reach where each
of them asks for itself, and nothing else that the scan leaves behind. -/
theorem run_scan_verbosity :
    (∀ verbose base config told,
      (Narrated.select verbose environment.colors environment.tree base config told).1 =
        Selection.select environment.tree base config) ∧
    (∀ verbose base loaded told,
      (Narrated.scanLoaded verbose environment.colors environment.tree base loaded
          options.language? told).1 =
        ((Survey.ofConfig environment.tree base loaded.config).1.extractAll environment.tree
          options.language?).1) ∧
    (∀ verbose, Narrated.scan environment { options with verbose := verbose } =
      run environment (.scan { options with verbose := verbose })) ∧
    (run environment (.scan { options with verbose := true })).silent =
      (run environment (.scan { options with verbose := false })).silent ∧
    ∃ notices, ∀ verbose, (run environment (.scan { options with verbose := verbose })).errors =
      Notice.render verbose environment.colors notices := by
  refine ⟨?_, ?_, ?_, ?_⟩
  · intro verbose base config told
    rw [Narrated.tells_select told]
  · intro verbose base loaded told
    rw [Narrated.tells_scanLoaded loaded options.language? told]
  · intro verbose
    exact Narrated.scan_eq_run environment _
  · obtain ⟨silent, notices, same⟩ := run_scan_verbose environment options
    exact ⟨(same true).1.trans (same false).1.symm, notices, fun verbose => (same verbose).2⟩

end

end Command

end SourceComments
