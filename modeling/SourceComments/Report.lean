import SourceComments.Findings
import SourceComments.Json.Printer
import SourceComments.Text.Style

/-! Reports: what a command prints when it has done its work.

The text form lists comments per file and then the issues, one line for each
comment. The JSON form is one document. -/

namespace SourceComments

inductive OutputFormat where
  | text
  | json
  deriving DecidableEq, Repr

/-- What a command has to report. -/
inductive Report where
  | scan (findings : Findings)
  | extract (findings : Findings)
  | created (path : String)
  deriving DecidableEq

namespace Report

def successMark : String := "\u2713"

def failureMark : String := "\u2718"

/-- A leading `./` is not shown. -/
def displayPath (path : String) : String :=
  match path.toList with
  | '.' :: '/' :: rest => String.ofList rest
  | _ => path

/-- The first line of a comment and, if it is another, its last. -/
def locationText (comment : Comment) : String :=
  match comment.span with
  | .line number => toString number
  | .lines first last =>
      if first = last then toString first else toString first ++ "-" ++ toString last

def replaceChar (target : Char) (substitute : List Char) (text : List Char) : List Char :=
  text.flatMap fun char => if char = target then substitute else [char]

/-- Content on one line: backslashes first, so that those added for line breaks,
carriage returns and tabs are not doubled. -/
def escapeContent (content : String) : String :=
  let backslashes := replaceChar '\\' ['\\', '\\'] content.toList
  let newlines := replaceChar '\n' ['\\', 'n'] backslashes
  let returns := replaceChar '\r' ['\\', 'r'] newlines
  String.ofList (replaceChar '\t' ['\\', 't'] returns)

def padRight (width : Nat) (text : String) : String :=
  String.ofList (text.toList ++ List.replicate (width - text.length) ' ')

def plural (count : Nat) (noun : String) : String :=
  if count = 1 then toString count ++ " " ++ noun else toString count ++ " " ++ noun ++ "s"

/-- The width of the widest location. -/
def locationWidth (comments : List Comment) : Nat :=
  ((comments.map fun comment => (locationText comment).length).max?).getD 1

/-- A file's path and a line for each of its comments. -/
def fileLines (colors : Bool) (file : FileComments) : List String :=
  let width := locationWidth file.comments
  Style.bold.paint colors (displayPath file.path) ::
    file.comments.map fun comment =>
      "  " ++ Style.blue.paint colors (padRight width (locationText comment)) ++ "  " ++
        escapeContent comment.content

def severityStyle : Severity → Style
  | .error => .boldRed
  | .warning => .boldYellow

def issueLines (colors : Bool) (issue : Issue) : List String :=
  let severity := (severityStyle issue.severity).paint colors issue.severity.name
  let rule := Style.dimmedCyan.paint colors issue.rule.name
  let hintLines := match issue.hint? with
    | some hint =>
        ["  " ++ Style.blue.paint colors "=" ++ " " ++
          Style.boldCyan.paint colors "hint:" ++ " " ++ hint]
    | none => []
  [severity ++ ": " ++ issue.message ++ "  " ++ rule,
   "  " ++ Style.blue.paint colors "-->" ++ " " ++ displayPath issue.path] ++ hintLines

/-- Files with comments, then issues. -/
def findingsLines (colors : Bool) (findings : Findings) : List String :=
  (findings.files.filter fun file => !file.comments.isEmpty).flatMap (fileLines colors) ++
    findings.issues.flatMap (issueLines colors)

def countsText (findings : Findings) : String :=
  "Extracted " ++ plural findings.commentCount "comment" ++ " from " ++
    plural findings.files.length "file"

/-- The closing line of a scan. -/
def summaryLine (colors : Bool) (findings : Findings) : String :=
  if findings.issues.isEmpty then
    Style.green.paint colors successMark ++ " " ++
      Style.green.paint colors (countsText findings)
  else
    Style.red.paint colors failureMark ++ " " ++ countsText findings ++ ", " ++
      Style.red.paint colors (plural findings.issues.length "file") ++
      " could not be scanned"

def commentJson (comment : Comment) : Json :=
  let location := match comment.span with
    | .line number => .number number
    | .lines _ _ => .array (comment.span.toList.map .number)
  .object
    [("content", .string comment.content),
     ("location", location),
     ("isMultiline", .bool comment.isMultiline)]

def fileJson (file : FileComments) : Json :=
  .object
    [("path", .string (displayPath file.path)),
     ("language", .string file.language.name),
     ("comments", .array (file.comments.map commentJson))]

def issueJson (issue : Issue) : Json :=
  .object
    [("path", .string (displayPath issue.path)),
     ("rule", .string issue.rule.name),
     ("severity", .string issue.severity.name),
     ("message", .string issue.message)]

def findingsJson (findings : Findings) : Json :=
  .object
    [("files", .array (findings.files.map fileJson)),
     ("issues", .array (findings.issues.map issueJson))]

def unlines (lines : List String) : String := String.join (lines.map (· ++ "\n"))

/-- The printed report. -/
def render (colors : Bool) (format : OutputFormat) (report : Report) : String :=
  match report, format with
  | scan findings, .text =>
      unlines (findingsLines colors findings ++ [summaryLine colors findings])
  | extract findings, .text => unlines (findingsLines colors findings)
  | scan findings, .json => (findingsJson findings).pretty ++ "\n"
  | extract findings, .json => (findingsJson findings).pretty ++ "\n"
  | created path, _ =>
      unlines
        [Style.green.paint colors successMark ++ " " ++
          Style.green.paint colors ("Created " ++ path)]

def errorCount : Report → Nat
  | scan findings => findings.errorCount
  | extract findings => findings.errorCount
  | created _ => 0

end Report

end SourceComments
