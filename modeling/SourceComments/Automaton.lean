import SourceComments.Comment

/-! Extraction by a finite automaton, for JavaScript-like languages.

The automaton reads one character at a time. It follows single- and
double-quoted literals with their backslash escapes, so comment markers inside
them are passed over. Template literals and regular expressions are plain code. -/

namespace SourceComments

/-- What the automaton is inside of. -/
inductive Mode where
  | code
  | slash
  | lineComment
  | blockComment
  | blockStar
  | literal (quote : Char)
  | escape (quote : Char)
  deriving DecidableEq, Repr

/-- What a character does besides changing the mode. A star inside a block
comment is held back until the next character shows whether it is content. -/
inductive Effect where
  | pass
  | keep (char : Char)
  | keepStar
  | keepStarAnd (char : Char)
  | openBlock
  | markBlockEnd
  | emitLine
  | emitBlock
  deriving DecidableEq, Repr

def Mode.step : Mode → Char → Mode × Effect
  | .code, char =>
      if char = '/' then (.slash, .pass)
      else if char = '"' ∨ char = '\'' then (.literal char, .pass)
      else (.code, .pass)
  | .slash, char =>
      if char = '/' then (.lineComment, .pass)
      else if char = '*' then (.blockComment, .openBlock)
      else (.code, .pass)
  | .lineComment, char =>
      if char = '\n' then (.code, .emitLine) else (.lineComment, .keep char)
  | .blockComment, char =>
      if char = '*' then (.blockStar, .markBlockEnd) else (.blockComment, .keep char)
  | .blockStar, char =>
      if char = '/' then (.code, .emitBlock)
      else if char = '*' then (.blockStar, .keepStar)
      else (.blockComment, .keepStarAnd char)
  | .literal quote, char =>
      if char = quote then (.code, .pass)
      else if char = '\\' then (.escape quote, .pass)
      else (.literal quote, .pass)
  | .escape quote, _ => (.literal quote, .pass)

/-- The automaton with its memory: the current line, the first and last line of
the latest block comment, the content read so far and the finished comments. -/
structure Automaton where
  mode : Mode := .code
  line : Nat := 1
  blockStart : Nat := 1
  blockEnd : Nat := 1
  buffer : String := ""
  comments : Array Comment := #[]
  deriving DecidableEq, Repr

namespace Automaton

/-- The automaton before the first character. -/
def start : Automaton := {}

def apply (state : Automaton) : Effect → Automaton
  | .pass => state
  | .keep char => { state with buffer := state.buffer.push char }
  | .keepStar => { state with buffer := state.buffer.push '*' }
  | .keepStarAnd char => { state with buffer := (state.buffer.push '*').push char }
  | .openBlock => { state with blockStart := state.line }
  | .markBlockEnd => { state with blockEnd := state.line }
  | .emitLine =>
      { state with
        buffer := ""
        comments := state.comments.push ⟨state.buffer, .line state.line⟩ }
  | .emitBlock =>
      { state with
        buffer := ""
        comments := state.comments.push
          ⟨state.buffer, .lines state.blockStart state.blockEnd⟩ }

/-- Read one character. A newline counts for the characters after it. -/
def feed (state : Automaton) (char : Char) : Automaton :=
  let (mode, effect) := state.mode.step char
  let next := { state with mode := mode }.apply effect
  if char = '\n' then { next with line := next.line + 1 } else next

/-- The end of the text closes a line comment and leaves a block comment open. -/
def finish (state : Automaton) : Extracted :=
  match state.mode with
  | .blockComment | .blockStar => .error .blockComment
  | .lineComment => .ok (state.comments.push ⟨state.buffer, .line state.line⟩).toList
  | _ => .ok state.comments.toList

def run (text : List Char) : Automaton := text.foldl feed start

/-- Every comment of a JavaScript-like text, in document order. -/
def extract (text : List Char) : Extracted := (run text).finish

end Automaton

end SourceComments
