/-! JSON documents and their text, compact and indented. -/

namespace SourceComments

inductive Json where
  | null
  | bool (value : Bool)
  | number (value : Nat)
  | string (value : String)
  | array (items : List Json)
  | object (members : List (String × Json))

namespace Json

def hexDigit (value : Nat) : Char :=
  if value < 10 then Char.ofNat (48 + value) else Char.ofNat (87 + value)

/-- A character inside a string: quotes, backslashes and control characters are
escaped, everything else stands for itself. -/
def escapeChar (char : Char) : List Char :=
  if char = '"' then ['\\', '"']
  else if char = '\\' then ['\\', '\\']
  else if char = '\x08' then ['\\', 'b']
  else if char = '\x0c' then ['\\', 'f']
  else if char = '\n' then ['\\', 'n']
  else if char = '\r' then ['\\', 'r']
  else if char = '\t' then ['\\', 't']
  else if char.toNat < 32 then
    ['\\', 'u', '0', '0', hexDigit (char.toNat / 16), hexDigit (char.toNat % 16)]
  else [char]

def quoted (text : String) : List Char := '"' :: text.toList.flatMap escapeChar ++ ['"']

def digits (value : Nat) : List Char := Nat.toDigits 10 value

def word (value : Bool) : List Char :=
  if value then ['t', 'r', 'u', 'e'] else ['f', 'a', 'l', 's', 'e']

mutual

/-- The text of a document without any blanks. -/
def compactChars : Json → List Char
  | null => ['n', 'u', 'l', 'l']
  | bool value => word value
  | number value => digits value
  | string value => quoted value
  | array items => '[' :: compactItems items ++ [']']
  | object members => '\x7b' :: compactMembers members ++ ['\x7d']

def compactItems : List Json → List Char
  | [] => []
  | [item] => compactChars item
  | item :: rest => compactChars item ++ ',' :: compactItems rest

def compactMembers : List (String × Json) → List Char
  | [] => []
  | [(key, value)] => quoted key ++ ':' :: compactChars value
  | (key, value) :: rest => quoted key ++ ':' :: compactChars value ++ ',' :: compactMembers rest

end

/-- A new line, indented by two blanks for each level. -/
def lineBreak (depth : Nat) : List Char := '\n' :: List.replicate (2 * depth) ' '

mutual

/-- The text of a document with every item and member on a line of its own. -/
def prettyChars (depth : Nat) : Json → List Char
  | null => ['n', 'u', 'l', 'l']
  | bool value => word value
  | number value => digits value
  | string value => quoted value
  | array [] => ['[', ']']
  | array (item :: rest) =>
      '[' :: lineBreak (depth + 1) ++ prettyChars (depth + 1) item ++
        prettyItems (depth + 1) rest ++ lineBreak depth ++ [']']
  | object [] => ['\x7b', '\x7d']
  | object ((key, value) :: rest) =>
      '\x7b' :: lineBreak (depth + 1) ++ quoted key ++ [':', ' '] ++
        prettyChars (depth + 1) value ++ prettyMembers (depth + 1) rest ++
        lineBreak depth ++ ['\x7d']

/-- Items after the first, each after a comma. -/
def prettyItems (depth : Nat) : List Json → List Char
  | [] => []
  | item :: rest => ',' :: lineBreak depth ++ prettyChars depth item ++ prettyItems depth rest

/-- Members after the first, each after a comma. -/
def prettyMembers (depth : Nat) : List (String × Json) → List Char
  | [] => []
  | (key, value) :: rest =>
      ',' :: lineBreak depth ++ quoted key ++ [':', ' '] ++ prettyChars depth value ++
        prettyMembers depth rest

end

def compact (document : Json) : String := String.ofList (compactChars document)

def pretty (document : Json) : String := String.ofList (prettyChars 0 document)

end Json

end SourceComments
