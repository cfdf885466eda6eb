/-! Line numbers from byte offsets.

The index holds the byte offset of every newline and, last, the byte length of
the text. The line of an offset is one more than the number of line ends before
it, found by bisection. -/

namespace SourceComments

structure LineIndex where
  ends : Array Nat
  deriving DecidableEq, Repr

namespace LineIndex

/-- Offsets of the newlines of a text that starts at `offset`, and of its end. -/
def endsFrom (offset : Nat) : List Char → List Nat
  | [] => [offset]
  | char :: rest =>
      if char = '\n' then offset :: endsFrom (offset + 1) rest
      else endsFrom (offset + char.utf8Size) rest

def ofChars (text : List Char) : LineIndex := ⟨(endsFrom 0 text).toArray⟩

def ofString (text : String) : LineIndex := ofChars text.toList

def lineCount (index : LineIndex) : Nat := index.ends.size

/-- Bisection of `[low, high)`: the ends before `low` lie before the offset and
those from `high` on do not. Each step at least halves the gap, so `high - low`
steps are enough. -/
def bisect (ends : Array Nat) (offset : Nat) : Nat → Nat → Nat → Nat
  | 0, low, _ => low
  | steps + 1, low, high =>
      if low < high then
        let middle := low + (high - low) / 2
        if ends.getD middle offset < offset then bisect ends offset steps (middle + 1) high
        else bisect ends offset steps low middle
      else low

/-- How many line ends lie strictly before the offset. -/
def endsBefore (index : LineIndex) (offset : Nat) : Nat :=
  bisect index.ends offset index.ends.size 0 index.ends.size

/-- The line, counted from one, that holds the byte at `offset`. A newline
belongs to the line it ends, and every offset past the text lies on a line after
the last. -/
def lineOf (index : LineIndex) (offset : Nat) : Nat := index.endsBefore offset + 1

end LineIndex

end SourceComments
