import SourceComments.FileTree
import SourceComments.Issue
import SourceComments.Language

/-! What extraction found in files: comments for those that could be read through,
an issue for each of the others. -/

namespace SourceComments

/-- The comments of one file. -/
structure FileComments where
  path : String
  language : Language
  comments : List Comment
  deriving DecidableEq

/-- Comments and issues, each in order of their paths. -/
structure Findings where
  files : List FileComments
  issues : List Issue
  deriving DecidableEq

/-- Extracts a text that was read from `path`. -/
def extractText (path : String) (language : Language) (text : String) :
    Except Issue FileComments :=
  match language.extract text with
  | .ok comments => .ok ⟨path, language, comments⟩
  | .error .blockComment => .error (.unterminated path)

/-- Reads a file and extracts its comments. -/
def extractFile (tree : FileTree) (path : String) (language : Language) :
    Except Issue FileComments :=
  match tree.read ⟨path⟩ with
  | .error fault => .error (.unreadable path ("Failed to read file: " ++ fault.message))
  | .ok text => extractText path language text

namespace Findings

def commentCount (findings : Findings) : Nat :=
  findings.files.foldl (fun count file => count + file.comments.length) 0

def sortFiles (files : List FileComments) : List FileComments :=
  files.mergeSort fun left right => left.path ≤ right.path

def filesOf (results : List (Except Issue FileComments)) : List FileComments :=
  results.filterMap fun
    | .ok file => some file
    | .error _ => none

def issuesOf (results : List (Except Issue FileComments)) : List Issue :=
  results.filterMap fun
    | .ok _ => none
    | .error issue => some issue

/-- Findings from results that arrive in any order. -/
def collect (results : List (Except Issue FileComments)) : Findings :=
  ⟨sortFiles (filesOf results), Issue.sort (issuesOf results)⟩

/-- How many issues are errors. -/
def errorCount (findings : Findings) : Nat :=
  findings.issues.countP fun issue => issue.severity == .error

end Findings

end SourceComments
