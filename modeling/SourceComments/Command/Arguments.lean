import SourceComments.Language
import SourceComments.Report

/-! Command lines.

Arguments are read from left to right. A value is judged only when the next
argument of a known kind, or the end, settles it, so an argument that is not known
at all is reported before a bad value in front of it. -/

namespace SourceComments

structure ScanOptions where
  root? : Option Path := none
  verbose : Bool := false
  language? : Option Language := none
  format : OutputFormat := .text
  deriving DecidableEq

structure ExtractOptions where
  file : Path
  language? : Option Language := none
  format : OutputFormat := .text
  deriving DecidableEq

inductive Command where
  | overview
  | scan (options : ScanOptions)
  | extract (options : ExtractOptions)
  | init
  deriving DecidableEq

/-- Why a command line runs no command. -/
inductive UsageFault where
  | helpRequested
  | versionRequested
  | unknownArgument
  | unknownCommand
  | repeated
  | unneededValue
  | badValue
  | missingArgument
  deriving DecidableEq, Repr

/-- Asking for help or the version is no mistake. -/
def UsageFault.exitCode : UsageFault → Nat
  | helpRequested | versionRequested => 0
  | _ => 2

namespace Arguments

/-- What takes a value. -/
inductive Parameter where
  | sourceRoot
  | language
  | format
  | file
  deriving DecidableEq, Repr

/-- What a command accepts. -/
structure Grammar where
  options : List (String × Parameter)
  hasVerbose : Bool
  hasFile : Bool

/-- What has been given so far. -/
structure Given where
  sourceRoot : Option String := none
  verbose : Bool := false
  language : Option Language := none
  format : Option OutputFormat := none
  file : Option String := none
  deriving DecidableEq

def formatOfName? : String → Option OutputFormat
  | "text" => some .text
  | "json" => some .json
  | _ => none

/-- Gives a parameter its value, for the first time only. -/
def assign (given : Given) (parameter : Parameter) (value : String) :
    Except UsageFault Given :=
  match parameter with
  | .sourceRoot =>
      if given.sourceRoot.isSome then .error .repeated
      else if value = "" then .error .badValue
      else .ok { given with sourceRoot := some value }
  | .language =>
      if given.language.isSome then .error .repeated
      else
        match Language.ofName? value with
        | some language => .ok { given with language := some language }
        | none => .error .badValue
  | .format =>
      if given.format.isSome then .error .repeated
      else
        match formatOfName? value with
        | some format => .ok { given with format := some format }
        | none => .error .badValue
  | .file =>
      if given.file.isSome then .error .repeated
      else if value = "" then .error .badValue
      else .ok { given with file := some value }

/-- A parameter that has been named, with its value once that has been seen. -/
structure Pending where
  parameter : Parameter
  value : Option String

structure State where
  given : Given := {}
  pending : Option Pending := none
  fileSeen : Bool := false

/-- Judges the pending value. -/
def State.settle (state : State) : Except UsageFault Given :=
  match state.pending with
  | none => .ok state.given
  | some ⟨_, none⟩ => .error .badValue
  | some ⟨parameter, some value⟩ => assign state.given parameter value

def setVerbose (given : Given) : Except UsageFault Given :=
  if given.verbose then .error .repeated else .ok { given with verbose := true }

/-- The name and the attached value of a long option, its dashes dropped. -/
def splitLong (text : List Char) : String × Option String :=
  match text.span (· ≠ '=') with
  | (name, []) => (String.ofList name, none)
  | (name, _ :: value) => (String.ofList name, some (String.ofList value))

def longOption (grammar : Grammar) (state : State) (text : List Char) :
    Except UsageFault State := do
  let (name, value?) := splitLong text
  if name = "help" ∨ (name = "verbose" ∧ grammar.hasVerbose) then
    if value?.isSome then .error .unneededValue
    else
      let given ← state.settle
      if name = "help" then .error .helpRequested
      else .ok { state with given := ← setVerbose given, pending := none }
  else
    match grammar.options.lookup name, value? with
    | none, _ => .error .unknownArgument
    | some parameter, some value =>
        let given ← state.settle
        .ok { state with given := ← assign given parameter value, pending := none }
    | some parameter, none =>
        .ok { state with given := ← state.settle, pending := some ⟨parameter, none⟩ }

/-- A cluster of one-letter options, its dash dropped. -/
def shortOptions (grammar : Grammar) (state : State) : List Char → Except UsageFault State
  | [] => .ok state
  | 'h' :: _ => do
      let _ ← state.settle
      .error .helpRequested
  | 'v' :: rest =>
      if grammar.hasVerbose then do
        let given ← setVerbose (← state.settle)
        shortOptions grammar { state with given := given, pending := none } rest
      else .error .unknownArgument
  | _ => .error .unknownArgument

/-- An argument in the place of the file. -/
def positional (grammar : Grammar) (state : State) (text : String) :
    Except UsageFault State :=
  if grammar.hasFile && !state.fileSeen then do
    .ok { given := ← state.settle, pending := some ⟨.file, some text⟩, fileSeen := true }
  else .error .unknownArgument

/-- An argument that does not look like an option. -/
def plain (grammar : Grammar) (state : State) (text : String) : Except UsageFault State :=
  match state.pending with
  | some ⟨parameter, none⟩ =>
      .ok { state with pending := some ⟨parameter, some text⟩ }
  | _ => positional grammar state text

/-- Reads arguments up to `--`, and after it only those in the place of the file. -/
def read (grammar : Grammar) : State → List String → Except UsageFault Given
  | state, [] => state.settle
  | state, argument :: rest =>
      match argument.toList with
      | ['-', '-'] => do
          let last ← rest.foldlM (positional grammar) state
          last.settle
      | '-' :: '-' :: text => do
          let next ← longOption grammar state text
          read grammar next rest
      | '-' :: char :: text => do
          let next ← shortOptions grammar state (char :: text)
          read grammar next rest
      | _ => do
          let next ← plain grammar state argument
          read grammar next rest

def scanGrammar : Grammar :=
  ⟨[("source-root", .sourceRoot), ("language", .language), ("format", .format)], true, false⟩

def extractGrammar : Grammar := ⟨[("language", .language), ("format", .format)], false, true⟩

def initGrammar : Grammar := ⟨[], false, false⟩

def scan (arguments : List String) : Except UsageFault Command := do
  let given ← read scanGrammar {} arguments
  .ok (.scan
    { root? := given.sourceRoot.map Path.mk
      verbose := given.verbose
      language? := given.language
      format := given.format.getD .text })

def extract (arguments : List String) : Except UsageFault Command := do
  let given ← read extractGrammar {} arguments
  match given.file with
  | none => .error .missingArgument
  | some file =>
      .ok (.extract
        { file := ⟨file⟩, language? := given.language, format := given.format.getD .text })

def init (arguments : List String) : Except UsageFault Command := do
  let _ ← read initGrammar {} arguments
  .ok .init

def commandNames : List String := ["scan", "extract", "init", "help"]

/-- Asking for help on a command takes at most that command's name. -/
def help : List String → UsageFault
  | [] => .helpRequested
  | [name] => if commandNames.contains name then .helpRequested else .unknownCommand
  | _ => .unknownCommand

/-- What stands in front of any command. -/
def leading (argument : String) : UsageFault :=
  match argument.toList with
  | '-' :: '-' :: text =>
      let (name, value?) := splitLong text
      if name = "help" ∨ name = "version" then
        if value?.isSome then .unneededValue
        else if name = "help" then .helpRequested
        else .versionRequested
      else .unknownArgument
  | '-' :: 'h' :: _ => .helpRequested
  | '-' :: 'V' :: _ => .versionRequested
  | '-' :: _ :: _ => .unknownArgument
  | _ => .unknownCommand

/-- The command of a command line, the program's name dropped. -/
def parse : List String → Except UsageFault Command
  | [] => .ok .overview
  | "scan" :: rest => scan rest
  | "extract" :: rest => extract rest
  | "init" :: rest => init rest
  | "help" :: rest => .error (help rest)
  | ["--"] => .ok .overview
  | "--" :: name :: _ =>
      .error (if commandNames.contains name then .unknownArgument else .unknownCommand)
  | argument :: _ => .error (leading argument)

end Arguments

end SourceComments
