/-! Comments found in a source text, and the lines they occupy.

A comment closed by the end of its line has one line; a comment with explicit
delimiters has every line from its opener to its closer. -/

namespace SourceComments

/-- The lines a comment occupies, counted from one. -/
inductive Span where
  | line (number : Nat)
  | lines (first last : Nat)
  deriving DecidableEq, Repr

namespace Span

def isMultiline : Span → Bool
  | line _ => false
  | lines _ _ => true

def first : Span → Nat
  | line number => number
  | lines start _ => start

def last : Span → Nat
  | line number => number
  | lines _ stop => stop

/-- Every line of the span, in ascending order. -/
def toList : Span → List Nat
  | line number => [number]
  | lines start stop => List.range' start (stop + 1 - start)

/-- The span of the same comment in a text with `count` more lines before it. -/
def shift (count : Nat) : Span → Span
  | line number => line (number + count)
  | lines start stop => lines (start + count) (stop + count)

end Span

/-- A comment: the text between its delimiters, and where it stands. -/
structure Comment where
  content : String
  span : Span
  deriving DecidableEq, Repr

namespace Comment

def isMultiline (comment : Comment) : Bool := comment.span.isMultiline

def firstLine (comment : Comment) : Nat := comment.span.first

def lastLine (comment : Comment) : Nat := comment.span.last

def shift (count : Nat) (comment : Comment) : Comment :=
  ⟨comment.content, comment.span.shift count⟩

end Comment

/-- A block comment was opened and never closed. It carries nothing else: the
comments found before the opener are dropped with it. -/
inductive Unterminated where
  | blockComment
  deriving DecidableEq, Repr

def Unterminated.message : Unterminated → String
  | blockComment => "unterminated multi-line comment"

/-- The comments of one text in document order, or the reason there are none. -/
abbrev Extracted := Except Unterminated (List Comment)

end SourceComments
