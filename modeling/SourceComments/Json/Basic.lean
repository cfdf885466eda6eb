/-! Reading JSON from left to right: faults, readers and blanks.

A reader takes the characters that are left and returns what it read with the
characters after it, or the first fault it met. A document is never built: the
caller knows which kind of value it wants, and any other value is recognised just
far enough to tell a wrong kind from a malformed text. -/

namespace SourceComments.Json

/-- Why reading stopped. -/
inductive Fault where
  | malformed
  | mismatched
  | truncated
  deriving DecidableEq, Repr

def Fault.message : Fault → String
  | malformed => "json:syntax"
  | mismatched => "json:data"
  | truncated => "json:eof"

abbrev Reader (α : Type) := List Char → Except Fault (α × List Char)

namespace Read

def isBlank (char : Char) : Bool := char == ' ' || char == '\n' || char == '\t' || char == '\r'

def skipBlanks (text : List Char) : List Char := text.dropWhile isBlank

/-- The rest after a keyword whose first letter has been passed. -/
def keyword : List Char → List Char → Except Fault (List Char)
  | [], text => .ok text
  | _ :: _, [] => .error .truncated
  | expected :: more, char :: rest =>
      if char = expected then keyword more rest else .error .malformed

def skipDigits (text : List Char) : List Char := text.dropWhile Char.isDigit

def startsWithDigit : List Char → Bool
  | char :: _ => char.isDigit
  | [] => false

end Read

end SourceComments.Json
