import SourceComments.Comment

/-! Issues: files whose comments could not be extracted, and why. -/

namespace SourceComments

inductive Severity where
  | error
  | warning
  deriving DecidableEq, Repr

def Severity.name : Severity → String
  | error => "error"
  | warning => "warning"

inductive Rule where
  | unterminatedComment
  | readError
  deriving DecidableEq, Repr

namespace Rule

def name : Rule → String
  | unterminatedComment => "unterminated-comment"
  | readError => "read-error"

def rank : Rule → Nat
  | unterminatedComment => 0
  | readError => 1

end Rule

inductive Issue where
  | unterminated (path : String)
  | unreadable (path : String) (reason : String)
  deriving DecidableEq, Repr

namespace Issue

def path : Issue → String
  | unterminated path => path
  | unreadable path _ => path

def message : Issue → String
  | unterminated _ => Unterminated.blockComment.message
  | unreadable _ reason => reason

def severity : Issue → Severity
  | unterminated _ => .error
  | unreadable _ _ => .error

def rule : Issue → Rule
  | unterminated _ => .unterminatedComment
  | unreadable _ _ => .readError

/-- Advice on how to settle the issue. -/
def hint? : Issue → Option String
  | unterminated _ => some "close the comment with `*/`"
  | unreadable _ _ => none

/-- Issues are ordered by path and then by rule. -/
def order (left right : Issue) : Ordering :=
  (compare left.path right.path).then (compare left.rule.rank right.rule.rank)

/-- Issues in order; those that compare equal keep their places. -/
def sort (issues : List Issue) : List Issue :=
  issues.mergeSort fun left right => (left.order right).isLE

end Issue

end SourceComments
