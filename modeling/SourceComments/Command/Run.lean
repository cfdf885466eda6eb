import SourceComments.Command.Arguments
import SourceComments.Survey

/-! Running a command against a file tree.

A command fails with a chain of reasons or has something to report. A failed
command prints nothing, and only `init` changes the tree, by the one file it adds; if that
fails half-way, a part of the file may be left. -/

namespace SourceComments

/-- Why a command failed. -/
inductive Failure where
  | config (fault : Config.LoadFault)
  | languageRequired
  | unknownLanguage (path : Path)
  | unreadableInput (fault : FileFault)
  | unreadableFile (path : Path) (fault : FileFault)
  | configExists
  | unwritable (fault : FileFault)
  deriving DecidableEq

/-- The failure in words, followed by its causes. -/
def Failure.chain : Failure → List String
  | config fault => fault.chain
  | languageRequired => ["--language is required when reading from stdin"]
  | unknownLanguage path =>
      ["Cannot detect the language of " ++ path.text ++ ", use --language"]
  | unreadableInput fault => ["Failed to read stdin", fault.message]
  | unreadableFile path fault => ["Failed to read file: " ++ path.text, fault.message]
  | configExists => [Config.fileName ++ " already exists"]
  | unwritable fault => ["Failed to write " ++ Config.fileName, fault.message]

inductive ExitStatus where
  | success
  | failure
  | error
  deriving DecidableEq, Repr

namespace ExitStatus

def code : ExitStatus → Nat
  | success => 0
  | failure => 1
  | error => 2

/-- Issues make a finished command count as failed. -/
def ofReport (report : Report) : ExitStatus :=
  if 0 < report.errorCount then failure else success

end ExitStatus

/-- What a command finds when it starts. -/
structure Environment where
  tree : FileTree
  input : ByteArray := .empty
  colors : Bool := false

/-- What a command leaves behind. -/
structure Outcome where
  status : ExitStatus
  output : String
  errors : String
  failure? : Option Failure
  tree : FileTree

namespace Command

/-- The name shown for text from standard input. -/
def inputName : String := "<stdin>"

/-- Printed when no command is given. -/
def overviewText : String :=
  Report.unlines
    ["A fast CLI tool and library for extracting comments from C-family and JavaScript source code",
     "",
     "Usage: comscan [COMMAND]",
     "",
     "Commands:",
     "  scan     Extract comments from all C-family and JavaScript files under the source root",
     "  extract  Extract comments from a single file",
     "  init     Initialize a new .comscanrc.json configuration file",
     "  help     Print this message or the help of the given subcommand(s)",
     "",
     "Options:",
     "  -h, --help     Print help",
     "  -V, --version  Print version"]

/-- Extracts every selected file below the root. -/
def scanRoot (tree : FileTree) (options : ScanOptions) :
    Except Failure (Findings × List Notice) :=
  match Survey.prepare tree (options.root?.getD Path.here) with
  | .error fault => .error (.config fault)
  | .ok (survey, notices) =>
      let (findings, failed) := survey.extractAll tree options.language?
      .ok (findings, notices ++ .scanning survey.files.entries.length :: failed)

def readsInput (options : ExtractOptions) : Bool := options.file.equivalent ⟨"-"⟩

/-- The language to extract in. It must be named for standard input. -/
def extractLanguage (options : ExtractOptions) : Except Failure Language :=
  match options.language? with
  | some language => .ok language
  | none =>
      if readsInput options then .error .languageRequired
      else
        match Language.ofPath? options.file with
        | some language => .ok language
        | none => .error (.unknownLanguage options.file)

/-- The name and the text to extract from. -/
def extractSource (environment : Environment) (options : ExtractOptions) :
    Except Failure (String × String) :=
  if readsInput options then
    match String.fromUTF8? environment.input with
    | some text => .ok (inputName, text)
    | none => .error (.unreadableInput .notText)
  else
    match environment.tree.read options.file with
    | .ok text => .ok (options.file.text, text)
    | .error fault => .error (.unreadableFile options.file fault)

def extractOne (environment : Environment) (options : ExtractOptions) :
    Except Failure Findings := do
  let language ← extractLanguage options
  let (name, text) ← extractSource environment options
  match extractText name language text with
  | .ok file => .ok ⟨[file], []⟩
  | .error issue => .ok ⟨[], [issue]⟩

/-- Writes the default configuration, never over an existing one. -/
def createConfig (tree : FileTree) : FileTree × Option Failure :=
  if tree.pathExists ⟨Config.fileName⟩ then (tree, some .configExists)
  else
    let (written, fault?) := tree.write ⟨Config.fileName⟩ Config.default.render.toUTF8
    (written, fault?.map .unwritable)

def succeed (environment : Environment) (format : OutputFormat) (report : Report)
    (errors : String) (tree : FileTree) : Outcome :=
  { status := .ofReport report
    output := report.render environment.colors format
    errors := errors
    failure? := none
    tree := tree }

def fail (environment : Environment) (failure : Failure) : Outcome :=
  { status := .error
    output := ""
    errors := ""
    failure? := some failure
    tree := environment.tree }

def run (environment : Environment) : Command → Outcome
  | overview =>
      { status := .success
        output := overviewText
        errors := ""
        failure? := none
        tree := environment.tree }
  | scan options =>
      match scanRoot environment.tree options with
      | .error failure => fail environment failure
      | .ok (findings, notices) =>
          succeed environment options.format (.scan findings)
            (Notice.render options.verbose environment.colors notices) environment.tree
  | extract options =>
      match extractOne environment options with
      | .error failure => fail environment failure
      | .ok findings =>
          succeed environment options.format (.extract findings) "" environment.tree
  | init =>
      match createConfig environment.tree with
      | (tree, some failure) => { fail environment failure with tree }
      | (tree, none) => succeed environment .text (.created Config.fileName) "" tree

end Command

end SourceComments
