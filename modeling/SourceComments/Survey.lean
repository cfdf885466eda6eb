import SourceComments.Config.Discovery
import SourceComments.Findings
import SourceComments.Selection

/-! A survey: a root directory with its configuration and the files it selects.

The files are listed once; their contents are read when comments are extracted. -/

namespace SourceComments

structure Survey where
  config : Config
  root : Path
  files : Table Language
  deriving DecidableEq

namespace Survey

/-- The survey of a root under a given configuration. -/
def ofConfig (tree : FileTree) (root : Path) (config : Config) : Survey × List Notice :=
  let selection := Selection.select tree root config
  let skipped := if 0 < selection.skipped then [.skipped selection.skipped] else []
  (⟨config, root, selection.files⟩, Selection.report tree root config ++ skipped)

/-- The survey of a root under the configuration found for it. -/
def prepare (tree : FileTree) (root : Path) :
    Except Config.LoadFault (Survey × List Notice) :=
  match Config.load tree root with
  | .error fault => .error fault
  | .ok loaded =>
      let (survey, notices) := ofConfig tree root loaded.config
      .ok (survey, (if loaded.fromFile then [] else [.defaultConfig]) ++ notices)

/-- What each file gives, under its own language or under one for all. -/
def results (tree : FileTree) (survey : Survey) (language? : Option Language) :
    List (Except Issue FileComments) :=
  survey.files.entries.map fun (path, language) =>
    extractFile tree path (language?.getD language)

def extractAll (tree : FileTree) (survey : Survey) (language? : Option Language) :
    Findings × List Notice :=
  let found := results tree survey language?
  (Findings.collect found, (Findings.issuesOf found).map .failed)

end Survey

end SourceComments
