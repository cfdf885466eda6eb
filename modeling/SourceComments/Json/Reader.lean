import SourceComments.Json.Mismatch

/-! Readers for the kinds of JSON values. -/

namespace SourceComments.Json.Read

/-- A string. -/
def string : Reader String := fun text =>
  match skipBlanks text with
  | '"' :: rest => stringBody rest
  | other => .error (unexpected other)

/-- Whether an array goes on, stopping before its next item or before its end. -/
def nextItem (isFirst : Bool) (text : List Char) : Except Fault (Bool × List Char) :=
  match skipBlanks text with
  | [] => .error .truncated
  | ']' :: rest => .ok (false, ']' :: rest)
  | ',' :: rest =>
      if isFirst then .ok (true, ',' :: rest)
      else
        match skipBlanks rest with
        | [] => .error .truncated
        | ']' :: _ => .error .malformed
        | item => .ok (true, item)
  | item => if isFirst then .ok (true, item) else .error .malformed

/-- The rest after an array's closing bracket. -/
def endArray (text : List Char) : Except Fault (List Char) :=
  match skipBlanks text with
  | [] => .error .truncated
  | ']' :: rest => .ok rest
  | _ => .error .malformed

/-- The items of an array whose opening bracket has been passed. -/
def items {α : Type} (item : Reader α) : Nat → Bool → Reader (List α)
  | 0, _, _ => .error .truncated
  | fuel + 1, isFirst, text => do
      let (goesOn, here) ← nextItem isFirst text
      if goesOn then
        let (value, after) ← item here
        let (values, rest) ← items item fuel false after
        .ok (value :: values, rest)
      else .ok ([], here)

def array {α : Type} (item : Reader α) : Reader (List α) := fun text =>
  match skipBlanks text with
  | '[' :: rest => do
      let (values, left) ← items item (rest.length + 1) true rest
      let after ← endArray left
      .ok (values, after)
  | other => .error (unexpected other)

/-- The next key of an object, or the rest after its closing brace. -/
def nextKey (isFirst : Bool) (text : List Char) :
    Except Fault (Option String × List Char) :=
  let key (rest : List Char) : Except Fault (Option String × List Char) :=
    match rest with
    | [] => .error .truncated
    | '"' :: after => (stringBody after).map fun (name, left) => (some name, left)
    | _ => .error .malformed
  match skipBlanks text with
  | [] => .error .truncated
  | '\x7d' :: rest => .ok (none, rest)
  | ',' :: rest => if isFirst then .error .malformed else key (skipBlanks rest)
  | other => if isFirst then key other else .error .malformed

/-- The rest after the colon of a member. -/
def colon (text : List Char) : Except Fault (List Char) :=
  match skipBlanks text with
  | [] => .error .truncated
  | ':' :: rest => .ok rest
  | _ => .error .malformed

/-- The members of an object whose opening brace has been passed. -/
def members {α : Type} (value : Reader α) : Nat → Bool → Reader (List (String × α))
  | 0, _, _ => .error .truncated
  | fuel + 1, isFirst, text => do
      match ← nextKey isFirst text with
      | (none, rest) => .ok ([], rest)
      | (some key, after) =>
          let (item, left) ← value (← colon after)
          let (others, rest) ← members value fuel false left
          .ok ((key, item) :: others, rest)

def object {α : Type} (value : Reader α) : Reader (List (String × α)) := fun text =>
  match skipBlanks text with
  | '\x7b' :: rest => members value (rest.length + 1) true rest
  | other => .error (unexpected other)

/-- A whole document: nothing but blanks may follow the value. -/
def document {α : Type} (value : Reader α) (text : List Char) : Except Fault α := do
  let (result, rest) ← value text
  match skipBlanks rest with
  | [] => .ok result
  | _ => .error .malformed

end SourceComments.Json.Read
