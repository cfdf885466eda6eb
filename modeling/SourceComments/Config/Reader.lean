import SourceComments.Config
import SourceComments.Json.Reader
import SourceComments.Json.Skip

/-! Reading a configuration from JSON.

A configuration is an object with up to three known members, or an array of their
values in order. What is left out takes its default, a known member may not be
repeated, and unknown members are passed over. -/

namespace SourceComments.Config

open Json (Fault Reader)

/-- The values read so far. -/
structure Fields where
  includes : Option (List String) := none
  ignores : Option (List String) := none
  extensions : Option (Table Language) := none
  deriving DecidableEq

def Fields.complete (fields : Fields) : Config :=
  ⟨fields.includes.getD [], fields.ignores.getD defaultIgnores,
    fields.extensions.getD .empty⟩

/-- The language of this name, where the name has been read. -/
def named (name : String) : Except Fault Language :=
  match Language.ofName? name with
  | some language => .ok language
  | none => .error .mismatched

/-- The rest after the word for nothing. -/
def nothing (text : List Char) : Except Fault (List Char) :=
  match Json.Read.skipBlanks text with
  | 'n' :: rest => Json.Read.keyword ['u', 'l', 'l'] rest
  | other => .error (Json.Read.unexpected other)

/-- The key that an object must start with, its opening brace passed. -/
def firstKey (text : List Char) : Except Fault (String × List Char) :=
  match Json.Read.skipBlanks text with
  | [] => .error .truncated
  | '"' :: rest => Json.Read.stringBody rest
  | _ => .error .malformed

/-- A language: its name, or an object with the name as its only key and nothing
under it. -/
def language : Reader Language := fun text =>
  match Json.Read.skipBlanks text with
  | [] => .error .truncated
  | '"' :: rest => do
      let (name, after) ← Json.Read.stringBody rest
      .ok (← named name, after)
  | '\x7b' :: rest => do
      let (name, afterName) ← firstKey rest
      let result ← named name
      let after ← nothing (← Json.Read.colon afterName)
      match Json.Read.skipBlanks after with
      | [] => .error .truncated
      | '\x7d' :: left => .ok (result, left)
      | _ => .error .malformed
  | _ => .error .malformed

def texts : Reader (List String) := Json.Read.array Json.Read.string

def languages : Reader (Table Language) := fun text => do
  let (entries, rest) ← Json.Read.object language text
  .ok (.ofList entries, rest)

/-- A member's value, its key read and its colon not. -/
def member (fields : Fields) (key : String) (text : List Char) :
    Except Fault (Fields × List Char) :=
  match key with
  | "includes" => do
      if fields.includes.isSome then .error .mismatched
      let (value, rest) ← texts (← Json.Read.colon text)
      .ok ({ fields with includes := some value }, rest)
  | "ignores" => do
      if fields.ignores.isSome then .error .mismatched
      let (value, rest) ← texts (← Json.Read.colon text)
      .ok ({ fields with ignores := some value }, rest)
  | "extensions" => do
      if fields.extensions.isSome then .error .mismatched
      let (value, rest) ← languages (← Json.Read.colon text)
      .ok ({ fields with extensions := some value }, rest)
  | _ => do
      let rest ← Json.Read.skipValue (← Json.Read.colon text)
      .ok (fields, rest)

/-- The members of an object whose opening brace has been passed. -/
def members : Nat → Bool → Fields → List Char → Except Fault (Fields × List Char)
  | 0, _, _, _ => .error .truncated
  | fuel + 1, isFirst, fields, text => do
      match ← Json.Read.nextKey isFirst text with
      | (none, rest) => .ok (fields, rest)
      | (some key, after) =>
          let (grown, rest) ← member fields key after
          members fuel false grown rest

/-- An item of an array, if it is there. -/
def item? {α : Type} (item : Reader α) (isFirst : Bool) (text : List Char) :
    Except Fault (Option α × List Char) := do
  let (goesOn, here) ← Json.Read.nextItem isFirst text
  if goesOn then
    let (value, rest) ← item here
    .ok (some value, rest)
  else .ok (none, here)

/-- The values of an array whose opening bracket has been passed. -/
def positional (text : List Char) : Except Fault (Fields × List Char) := do
  let (includes, afterIncludes) ← item? texts true text
  let (ignores, afterIgnores) ← item? texts false afterIncludes
  let (extensions, afterExtensions) ← item? languages false afterIgnores
  let rest ← Json.Read.endArray afterExtensions
  .ok (⟨includes, ignores, extensions⟩, rest)

def reader : Reader Config := fun text => do
  let (fields, rest) ← match Json.Read.skipBlanks text with
    | '[' :: rest => positional rest
    | '\x7b' :: rest => members (rest.length + 1) true {} rest
    | other => .error (Json.Read.unexpected other)
  .ok (fields.complete, rest)

/-- The configuration a text describes. -/
def parse (text : String) : Except Fault Config := Json.Read.document reader text.toList

end SourceComments.Config
