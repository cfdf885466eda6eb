import SourceComments.Json.Basic
import SourceComments.Text.Utf8

/-! Strings of JSON, read or passed over.

Reading pairs surrogates and refuses those left alone; passing over looks only at
the form of the escapes. -/

namespace SourceComments.Json.Read

def hexValue? (char : Char) : Option Nat :=
  if '0' ≤ char ∧ char ≤ '9' then some (char.toNat - 48)
  else if 'a' ≤ char ∧ char ≤ 'f' then some (char.toNat - 87)
  else if 'A' ≤ char ∧ char ≤ 'F' then some (char.toNat - 55)
  else none

/-- Four hexadecimal digits. The text ends too early if it has fewer than four
bytes left. -/
def hexFour (text : List Char) : Except Fault (Nat × List Char) :=
  if byteLength (text.take 4) < 4 then .error .truncated
  else
    match text with
    | first :: second :: third :: fourth :: rest =>
        match hexValue? first, hexValue? second, hexValue? third, hexValue? fourth with
        | some a, some b, some c, some d => .ok (((a * 16 + b) * 16 + c) * 16 + d, rest)
        | _, _, _, _ => .error .malformed
    | _ => .error .malformed

/-- The character that a letter after a backslash stands for. -/
def shortEscape? (char : Char) : Option Char :=
  match char with
  | '"' => some '"'
  | '\\' => some '\\'
  | '/' => some '/'
  | 'b' => some '\x08'
  | 'f' => some '\x0c'
  | 'n' => some '\n'
  | 'r' => some '\r'
  | 't' => some '\t'
  | _ => none

/-- The low half of a surrogate pair, with its `\u`. -/
def lowSurrogate (text : List Char) : Except Fault (Nat × List Char) :=
  match text with
  | [] => .error .truncated
  | '\\' :: [] => .error .truncated
  | '\\' :: 'u' :: rest =>
      match hexFour rest with
      | .error fault => .error fault
      | .ok (unit, after) =>
          if 0xDC00 ≤ unit ∧ unit ≤ 0xDFFF then .ok (unit, after) else .error .malformed
  | _ => .error .malformed

/-- The character written by the escape after `\u`; characters above the basic
plane take two. -/
def unicodeEscape (text : List Char) : Except Fault (Char × List Char) :=
  match hexFour text with
  | .error fault => .error fault
  | .ok (unit, rest) =>
      if unit < 0xD800 ∨ 0xDFFF < unit then .ok (Char.ofNat unit, rest)
      else if 0xDC00 ≤ unit then .error .malformed
      else
        match lowSurrogate rest with
        | .error fault => .error fault
        | .ok (low, after) =>
            .ok (Char.ofNat (0x10000 + (unit - 0xD800) * 0x400 + (low - 0xDC00)), after)

/-- The character written by the escape after a backslash. -/
def escape (text : List Char) : Except Fault (Char × List Char) :=
  match text with
  | [] => .error .truncated
  | 'u' :: rest => unicodeEscape rest
  | char :: rest =>
      match shortEscape? char with
      | some meaning => .ok (meaning, rest)
      | none => .error .malformed

/-- The characters of a string up to its closing quote. -/
def stringChars : Nat → Reader (List Char)
  | 0, _ => .error .truncated
  | fuel + 1, text =>
      match text with
      | [] => .error .truncated
      | '"' :: rest => .ok ([], rest)
      | '\\' :: rest =>
          match escape rest with
          | .error fault => .error fault
          | .ok (char, after) =>
              (stringChars fuel after).map fun (chars, left) => (char :: chars, left)
      | char :: rest =>
          if char.toNat < 32 then .error .malformed
          else (stringChars fuel rest).map fun (chars, left) => (char :: chars, left)

/-- A string whose opening quote has been passed. -/
def stringBody : Reader String := fun text =>
  (stringChars (text.length + 1) text).map fun (chars, rest) => (String.ofList chars, rest)

/-- Passes over a string whose opening quote has been passed. Escapes must be well
formed, but surrogates need not be paired. -/
def skipString : Nat → List Char → Except Fault (List Char)
  | 0, _ => .error .truncated
  | fuel + 1, text =>
      match text with
      | [] => .error .truncated
      | '"' :: rest => .ok rest
      | ['\\'] => .error .truncated
      | '\\' :: 'u' :: rest =>
          match hexFour rest with
          | .error fault => .error fault
          | .ok (_, after) => skipString fuel after
      | '\\' :: char :: rest =>
          if (shortEscape? char).isSome then skipString fuel rest else .error .malformed
      | char :: rest =>
          if char.toNat < 32 then .error .malformed else skipString fuel rest

end SourceComments.Json.Read
