import SourceComments.Config
import SourceComments.Glob.Expand
import SourceComments.Notice

/-! The source files that a configuration selects below a directory.

Every root is walked completely: an ignored directory is still entered, and each
file is judged by its own spelled path. Entries without wildcards are plain paths
under the base directory, the others are patterns. -/

namespace SourceComments

structure Selection where
  files : Table Language
  skipped : Nat
  deriving DecidableEq

namespace Selection

/-- The roots of one included entry. -/
def rootsOf (tree : FileTree) (base : Path) (entry : String) : Except Notice (List Path) :=
  let path := base.join ⟨entry⟩
  if Glob.isPattern entry then
    match Glob.directories tree path with
    | .ok paths => .ok paths
    | .error fault => .error (.badInclude entry fault)
  else if tree.pathExists path then .ok [path]
  else .error (.missingInclude path)

/-- The roots of all included entries, or the base itself if there are none. -/
def roots (tree : FileTree) (base : Path) (config : Config) :
    List (Except Notice (List Path)) :=
  if config.includes.isEmpty then [.ok [base]]
  else config.includes.map (rootsOf tree base)

def walkRoot (tree : FileTree) (root : Path) : List (Except Notice Path) :=
  (tree.walk root).map fun
    | .ok path => .ok path
    | .error (path, fault) => .error (.inaccessible path fault)

def successes {α : Type} (results : List (Except Notice α)) : List α :=
  results.filterMap fun
    | .ok value => some value
    | .error _ => none

def notices {α : Type} (results : List (Except Notice α)) : List Notice :=
  results.filterMap fun
    | .ok _ => none
    | .error notice => some notice

/-- What walking every root comes across. -/
def walks (tree : FileTree) (base : Path) (config : Config) : List (Except Notice Path) :=
  (successes (roots tree base config)).flatten.flatMap (walkRoot tree)

/-- What a configuration leaves out: paths that cover everything below them, and
patterns that are matched against whole paths. -/
structure Ignores where
  paths : List Path
  patterns : List (List Glob.Token)
  deriving DecidableEq

def readPattern (entry : String) : Except Notice (List Glob.Token) :=
  match Glob.tokens entry.toList with
  | .ok tokens => .ok tokens
  | .error fault => .error (.badIgnore entry fault)

def readPatterns (config : Config) : List (Except Notice (List Glob.Token)) :=
  (config.ignores.filter Glob.isPattern).map readPattern

def Ignores.ofConfig (base : Path) (config : Config) : Ignores where
  paths := (config.ignores.filter fun entry => !Glob.isPattern entry).map fun entry =>
    base.join ⟨entry⟩
  patterns := successes (readPatterns config)

def Ignores.covers (ignores : Ignores) (path : Path) : Bool :=
  ignores.paths.any (path.startsWith ·) ||
    ignores.patterns.any fun tokens => Glob.matchTokens tokens path.text.toList

/-- The language of a walked path, if it is selected. -/
def languageOf? (tree : FileTree) (config : Config) (ignores : Ignores) (path : Path) :
    Option Language :=
  if ignores.covers path then none
  else
    match config.languageFor? path with
    | some language => if tree.isFile path then some language else none
    | none => none

def select (tree : FileTree) (base : Path) (config : Config) : Selection :=
  let ignores := Ignores.ofConfig base config
  let results := walks tree base config
  { files := .ofList ((successes results).filterMap fun path =>
      (languageOf? tree config ignores path).map fun language => (path.text, language))
    skipped := (notices results).length }

/-- What selecting has to say: ignored entries, then included ones, then
the paths that could not be opened. -/
def report (tree : FileTree) (base : Path) (config : Config) : List Notice :=
  notices (readPatterns config) ++ notices (roots tree base config) ++
    notices (walks tree base config)

end Selection

end SourceComments
