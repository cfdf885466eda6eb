/-! Glob patterns: how a pattern is read, and where reading one fails.

Positions in faults count characters from zero. -/

namespace SourceComments.Glob

/-- The characters from `first` to `last`. -/
structure CharRange where
  first : Char
  last : Char
  deriving DecidableEq, Repr

def CharRange.holds (range : CharRange) (char : Char) : Bool :=
  range.first ≤ char && char ≤ range.last

inductive Token where
  | char (char : Char)
  | anyChar
  | anySequence
  | anyDirectories
  | within (ranges : List CharRange)
  | outside (ranges : List CharRange)
  deriving DecidableEq, Repr

/-- What is wrong with a pattern. -/
inductive Flaw where
  | tooManyStars
  | partialComponent
  | badRange
  deriving DecidableEq, Repr

def Flaw.message : Flaw → String
  | tooManyStars => "wildcards are either regular `*` or recursive `**`"
  | partialComponent => "recursive wildcards must form a single path component"
  | badRange => "invalid range pattern"

structure PatternFault where
  position : Nat
  flaw : Flaw
  deriving DecidableEq, Repr

def PatternFault.message (fault : PatternFault) : String :=
  "Pattern syntax error near position " ++ toString fault.position ++ ": " ++ fault.flaw.message

/-- The ranges of a bracket: `x-y` where three characters are left, single
characters otherwise. -/
def ranges : List Char → List CharRange
  | first :: '-' :: last :: rest => ⟨first, last⟩ :: ranges rest
  | char :: rest => ⟨char, char⟩ :: ranges rest
  | [] => []

/-- A bracket's body and the text after it. The first character belongs to the
body even when it is the closing bracket. -/
def bracket? (rest : List Char) : Option (List Char × List Char) :=
  match rest with
  | [] => none
  | first :: tail =>
      match tail.span (· ≠ ']') with
      | (_, []) => none
      | (body, _ :: after) => some (first :: body, after)

/-- Tokens of a pattern from `position` on, where `opens` tells whether a path
component starts. Every token takes at least one character, so the text's length
is enough fuel. -/
def tokensFrom : Nat → Nat → Bool → List Char → Except PatternFault (List Token)
  | 0, _, _, _ => .ok []
  | fuel + 1, position, opens, text =>
      match text with
      | [] => .ok []
      | '?' :: rest => (tokensFrom fuel (position + 1) false rest).map (.anyChar :: ·)
      | '*' :: '*' :: '*' :: _ => .error ⟨position + 2, .tooManyStars⟩
      | '*' :: '*' :: rest =>
          if opens then
            match rest with
            | [] => .ok [.anyDirectories]
            | '/' :: after =>
                (tokensFrom fuel (position + 3) true after).map (.anyDirectories :: ·)
            | _ => .error ⟨position + 2, .partialComponent⟩
          else .error ⟨position - 1, .partialComponent⟩
      | '*' :: rest => (tokensFrom fuel (position + 1) false rest).map (.anySequence :: ·)
      | '[' :: '!' :: rest =>
          match bracket? rest with
          | none => .error ⟨position, .badRange⟩
          | some (body, after) =>
              (tokensFrom fuel (position + body.length + 3) false after).map
                (.outside (ranges body) :: ·)
      | '[' :: rest =>
          match bracket? rest with
          | none => .error ⟨position, .badRange⟩
          | some (body, after) =>
              (tokensFrom fuel (position + body.length + 2) false after).map
                (.within (ranges body) :: ·)
      | char :: rest =>
          (tokensFrom fuel (position + 1) (char == '/') rest).map (.char char :: ·)

/-- The tokens of a pattern, or its first fault. -/
def tokens (pattern : List Char) : Except PatternFault (List Token) :=
  tokensFrom pattern.length 0 true pattern

/-- Entries of a configuration with neither a star nor a question mark are plain
paths. -/
def isPattern (text : String) : Bool := text.toList.any fun char => char == '*' || char == '?'

end SourceComments.Glob
