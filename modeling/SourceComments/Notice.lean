import SourceComments.FileTree
import SourceComments.Glob.Pattern
import SourceComments.Issue
import SourceComments.Text.Style

/-! Notices on the way to a result. They never change it. -/

namespace SourceComments

inductive Notice where
  | badIgnore (pattern : String) (fault : Glob.PatternFault)
  | badInclude (pattern : String) (fault : Glob.PatternFault)
  | missingInclude (path : Path)
  | inaccessible (path : Path) (fault : FileFault)
  | defaultConfig
  | skipped (count : Nat)
  | scanning (count : Nat)
  | failed (issue : Issue)
  deriving DecidableEq

namespace Notice

/-- Paths that were left out are reported to everybody, the rest on request. -/
def isAlwaysShown : Notice → Bool
  | skipped _ => true
  | _ => false

def text (verbose colors : Bool) : Notice → String
  | badIgnore pattern fault =>
      warning ++ " Invalid ignore pattern '" ++ pattern ++ "': " ++ fault.message
  | badInclude pattern fault =>
      warning ++ " Invalid glob pattern '" ++ pattern ++ "': " ++ fault.message
  | missingInclude path => warning ++ " Include path does not exist: " ++ path.text
  | inaccessible path fault =>
      warning ++ " Cannot access path: IO error for operation on " ++ path.text ++ ": " ++
        fault.message
  | defaultConfig => "Note: No .comscanrc.json found, using default configuration"
  | skipped count =>
      "Warning: " ++ toString count ++ " path(s) skipped due to access errors" ++
        if verbose then "" else " (use -v for details)"
  | scanning count => "Scanning " ++ toString count ++ " file(s)"
  | failed issue => "Warning: " ++ issue.path ++ " - " ++ issue.message
where
  warning : String := Style.boldYellow.paint colors "warning:"

/-- The notices that are shown, one to a line. -/
def render (verbose colors : Bool) (notices : List Notice) : String :=
  String.join <|
    (notices.filter fun notice => verbose || notice.isAlwaysShown).map fun notice =>
      notice.text verbose colors ++ "\n"

end Notice

end SourceComments
