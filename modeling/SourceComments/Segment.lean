import SourceComments.Comment
import SourceComments.Text.LineIndex
import SourceComments.Text.Utf8

/-! Extraction by delimited regions, for languages of the C family.

The text is cut into segments from left to right. A double-quoted literal closed
on its own line hides everything inside it, backslashes have no meaning, and a
block comment ends at the nearest closer. Which segment starts at a position
depends only on the text from there on. -/

namespace SourceComments

/-- A piece of text: its characters are the delimiters and the body it names. -/
inductive Segment where
  | code (char : Char)
  | literal (body : List Char)
  | lineComment (body : List Char)
  | blockComment (body : List Char)
  | unclosed (body : List Char)
  deriving DecidableEq, Repr

namespace Segment

/-- The characters the segment was cut from. -/
def text : Segment → List Char
  | code char => [char]
  | literal body => '"' :: body ++ ['"']
  | lineComment body => '/' :: '/' :: body
  | blockComment body => '/' :: '*' :: body ++ ['*', '/']
  | unclosed body => '/' :: '*' :: body

/-- The body of a literal whose opening quote has just been passed, if a quote
closes it before the line ends. -/
def literalBody? : List Char → Option (List Char)
  | [] => none
  | char :: rest =>
      if char = '"' then some []
      else if char = '\n' then none
      else (literalBody? rest).map (char :: ·)

/-- The characters up to the end of the line. -/
def lineBody (rest : List Char) : List Char := rest.takeWhile (· ≠ '\n')

/-- The characters before the nearest closer `*/`, if there is one. -/
def blockBody? : List Char → Option (List Char)
  | [] => none
  | [_] => none
  | char :: next :: rest =>
      if char = '*' ∧ next = '/' then some []
      else (blockBody? (next :: rest)).map (char :: ·)

/-- The segment at the start of `char :: rest`. -/
def first (char : Char) (rest : List Char) : Segment :=
  match char, rest with
  | '"', _ =>
      match literalBody? rest with
      | some body => literal body
      | none => code char
  | '/', '/' :: body => lineComment (lineBody body)
  | '/', '*' :: body =>
      match blockBody? body with
      | some closed => blockComment closed
      | none => unclosed body
  | _, _ => code char

/-- Segments of the text after `pending` more characters, which belong to a
segment already cut. -/
def cut : Nat → List Char → List Segment
  | _, [] => []
  | pending + 1, _ :: rest => cut pending rest
  | 0, char :: rest =>
      let segment := first char rest
      segment :: cut (segment.text.length - 1) rest

/-- The segments of a text, from left to right. -/
def ofText (text : List Char) : List Segment := cut 0 text

/-- The comments of consecutive segments, the first of which starts at byte
`offset`. An unclosed block comment discards them all. -/
def comments (index : LineIndex) : Nat → List Segment → Extracted
  | _, [] => .ok []
  | offset, segment :: rest =>
      let stop := offset + byteLength segment.text
      match segment with
      | unclosed _ => .error .blockComment
      | lineComment body =>
          (comments index stop rest).map
            (⟨String.ofList body, .line (index.lineOf offset)⟩ :: ·)
      | blockComment body =>
          (comments index stop rest).map
            (⟨String.ofList body, .lines (index.lineOf offset) (index.lineOf stop)⟩ :: ·)
      | code _ => comments index stop rest
      | literal _ => comments index stop rest

/-- Every comment of a C-family text, in document order. -/
def extract (text : List Char) : Extracted :=
  comments (LineIndex.ofChars text) 0 (ofText text)

end Segment

end SourceComments
