import SourceComments.Json.Strings

/-! Passing over JSON values of any kind.

Arrays and objects that have been entered are kept on a list, so values may be
nested to any depth. -/

namespace SourceComments.Json.Read

/-- Passes over an exponent whose letter has been passed. -/
def skipExponent (text : List Char) : Except Fault (List Char) :=
  let unsigned := match text with
    | '+' :: rest => rest
    | '-' :: rest => rest
    | _ => text
  if startsWithDigit unsigned then .ok (skipDigits unsigned) else .error .malformed

/-- Passes over the fraction and the exponent of a number. -/
def skipFraction (text : List Char) : Except Fault (List Char) :=
  let exponent (rest : List Char) : Except Fault (List Char) :=
    match rest with
    | 'e' :: after => skipExponent after
    | 'E' :: after => skipExponent after
    | _ => .ok rest
  match text with
  | '.' :: rest =>
      if startsWithDigit rest then exponent (skipDigits rest) else .error .malformed
  | _ => exponent text

/-- Passes over a number whose sign has been passed. Its size does not matter, and
a number cut short is malformed. -/
def skipNumber (text : List Char) : Except Fault (List Char) :=
  match text with
  | '0' :: rest => if startsWithDigit rest then .error .malformed else skipFraction rest
  | _ => if startsWithDigit text then skipFraction (skipDigits text) else .error .malformed

/-- An array or object that has been entered and not yet left. -/
inductive Frame where
  | array
  | object
  deriving DecidableEq, Repr

def Frame.closer : Frame → Char
  | array => ']'
  | object => '\x7d'

/-- Passes over a member's key and its colon. -/
def skipKey (text : List Char) : Except Fault (List Char) :=
  match skipBlanks text with
  | [] => .error .truncated
  | '"' :: rest =>
      match skipString (rest.length + 1) rest with
      | .error fault => .error fault
      | .ok after =>
          match skipBlanks after with
          | [] => .error .truncated
          | ':' :: value => .ok value
          | _ => .error .malformed
  | _ => .error .malformed

/-- Passes over a value that holds no other. -/
def skipScalar (text : List Char) : Except Fault (List Char) :=
  match text with
  | [] => .error .truncated
  | 'n' :: rest => keyword ['u', 'l', 'l'] rest
  | 't' :: rest => keyword ['r', 'u', 'e'] rest
  | 'f' :: rest => keyword ['a', 'l', 's', 'e'] rest
  | '"' :: rest => skipString (rest.length + 1) rest
  | '-' :: rest => skipNumber rest
  | _ => if startsWithDigit text then skipNumber text else .error .malformed

/-- After a value: closes every frame that ends here, and stops before the next
value of the frame that goes on. No frame is left once the outermost value is
complete. -/
def leave : List Frame → List Char → Except Fault (List Frame × List Char)
  | [], text => .ok ([], text)
  | frame :: outer, text =>
      match skipBlanks text with
      | [] => .error .truncated
      | char :: rest =>
          if char = frame.closer then leave outer rest
          else if char = ',' then
            match frame with
            | .array => .ok (frame :: outer, rest)
            | .object => (skipKey rest).map fun value => (frame :: outer, value)
          else .error .malformed

/-- Passes over one value inside the given frames, and then over the rest of them.
Each round passes at least one character. -/
def skipWithin : Nat → List Frame → List Char → Except Fault (List Char)
  | 0, _, _ => .error .truncated
  | fuel + 1, frames, text =>
      let finish (after : List Char) : Except Fault (List Char) :=
        match leave frames after with
        | .error fault => .error fault
        | .ok ([], rest) => .ok rest
        | .ok (frame :: outer, rest) => skipWithin fuel (frame :: outer) rest
      match skipBlanks text with
      | '[' :: rest =>
          match skipBlanks rest with
          | [] => .error .truncated
          | ']' :: after => finish after
          | items => skipWithin fuel (.array :: frames) items
      | '\x7b' :: rest =>
          match skipBlanks rest with
          | [] => .error .truncated
          | '\x7d' :: after => finish after
          | members =>
              match skipKey members with
              | .error fault => .error fault
              | .ok value => skipWithin fuel (.object :: frames) value
      | value =>
          match skipScalar value with
          | .error fault => .error fault
          | .ok after => finish after

/-- Passes over one value of any kind and any depth. -/
def skipValue (text : List Char) : Except Fault (List Char) :=
  skipWithin (text.length + 1) [] text

end SourceComments.Json.Read
