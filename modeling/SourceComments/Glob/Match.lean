import SourceComments.Glob.Pattern

/-! When a pattern matches a text.

Slashes and leading dots are ordinary characters to every token but
`anyDirectories`, which takes nothing, whole leading directories, or the rest. -/

namespace SourceComments.Glob

/-- The result of an attempt. It is exhausted when the text ran out before the
pattern: skipping more of the text cannot help then. -/
inductive Verdict where
  | hit
  | miss
  | exhausted
  deriving DecidableEq, Repr

def Token.accepts : Token → Char → Bool
  | .char expected, actual => actual == expected
  | .anyChar, _ => true
  | .within ranges, actual => ranges.any (·.holds actual)
  | .outside ranges, actual => !ranges.any (·.holds actual)
  | .anySequence, _ => false
  | .anyDirectories, _ => false

/-- Everything that can be left after a sequence of characters, longest first. -/
def suffixes : List Char → List (List Char)
  | [] => [[]]
  | char :: rest => (char :: rest) :: suffixes rest

/-- What can be left after some leading directories, or after everything. -/
def afterSlashes : List Char → List (List Char)
  | [] => [[]]
  | char :: rest => if char = '/' then rest :: afterSlashes rest else afterSlashes rest

/-- The first verdict that is not a miss. -/
def firstDecided (attempt : List Char → Verdict) : List (List Char) → Verdict
  | [] => .miss
  | text :: others =>
      match attempt text with
      | .miss => firstDecided attempt others
      | verdict => verdict

def judge : List Token → List Char → Verdict
  | [], [] => .hit
  | [], _ :: _ => .miss
  | .anySequence :: rest, text => firstDecided (judge rest) (suffixes text)
  | .anyDirectories :: rest, text => firstDecided (judge rest) (text :: afterSlashes text)
  | _ :: _, [] => .exhausted
  | token :: rest, char :: after => if token.accepts char then judge rest after else .miss

/-- Whether the tokens match the whole text. -/
def matchTokens (tokens : List Token) (text : List Char) : Bool := judge tokens text == .hit

end SourceComments.Glob
