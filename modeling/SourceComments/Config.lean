import SourceComments.Glob.Pattern
import SourceComments.Json.Printer
import SourceComments.Language
import SourceComments.Table

/-! Configuration: where to look for source files, what to leave out, and which
extra extensions belong to which language. -/

namespace SourceComments

structure Config where
  includes : List String
  ignores : List String
  extensions : Table Language
  deriving DecidableEq

namespace Config

/-- The name of the file a configuration is read from. -/
def fileName : String := ".comscanrc.json"

def defaultIgnores : List String := ["**/node_modules/**", "**/.git/**", "**/target/**"]

def default : Config := ⟨[], defaultIgnores, .empty⟩

/-- What is wrong with the values of a configuration. -/
inductive Problem where
  | badIgnore (pattern : String) (fault : Glob.PatternFault)
  | badInclude (pattern : String) (fault : Glob.PatternFault)
  | badExtension (text : String)
  deriving DecidableEq, Repr

/-- The problem in words, followed by its cause. -/
def Problem.chain : Problem → List String
  | badIgnore pattern fault =>
      ["Invalid glob pattern in 'ignores': \"" ++ pattern ++ "\"", fault.message]
  | badInclude pattern fault =>
      ["Invalid glob pattern in 'includes': \"" ++ pattern ++ "\"", fault.message]
  | badExtension text =>
      ["Invalid extension in 'extensions': \"" ++ text ++
        "\" (use the bare extension, e.g. \"h\")"]

/-- Every ignored entry is read as a pattern, plain paths included. -/
def ignoreProblem? (pattern : String) : Option Problem :=
  match Glob.tokens pattern.toList with
  | .ok _ => none
  | .error fault => some (.badIgnore pattern fault)

def includeProblem? (pattern : String) : Option Problem :=
  if Glob.isPattern pattern then
    match Glob.tokens pattern.toList with
    | .ok _ => none
    | .error fault => some (.badInclude pattern fault)
  else none

def extensionProblem? (text : String) : Option Problem :=
  match text.toList with
  | [] => some (.badExtension text)
  | '.' :: _ => some (.badExtension text)
  | _ => none

/-- The first problem: ignored entries, then included ones, then extensions. -/
def problem? (config : Config) : Option Problem :=
  (config.ignores.findSome? ignoreProblem?).or
    ((config.includes.findSome? includeProblem?).or
      (config.extensions.keys.findSome? extensionProblem?))

def validate (config : Config) : Except Problem Unit :=
  match config.problem? with
  | none => .ok ()
  | some problem => .error problem

/-- The language of a file: the first configured extension that agrees but for
case, or else the built-in one. -/
def languageFor? (config : Config) (path : Path) : Option Language :=
  match path.extension? with
  | none => none
  | some extension =>
      match config.extensions.entries.find? fun (configured, _) =>
          Language.sameIgnoringCase configured extension with
      | some (_, language) => some language
      | none => Language.ofExtension? extension

def toJson (config : Config) : Json :=
  .object
    [("includes", .array (config.includes.map .string)),
     ("ignores", .array (config.ignores.map .string)),
     ("extensions", .object (config.extensions.entries.map fun (extension, language) =>
        (extension, .string language.name)))]

/-- The text of a configuration file. -/
def render (config : Config) : String := config.toJson.pretty

end Config

end SourceComments
