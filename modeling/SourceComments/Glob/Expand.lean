import SourceComments.FileTree
import SourceComments.Glob.Match

/-! The paths of a file tree that a pattern names.

A pattern is followed component by component from the root if it is absolute and
from the current directory otherwise. The paths found are spelled as they were
reached: without a leading dot, and with every other plain component as it stands in
the pattern. Links to directories are entered like directories. -/

namespace SourceComments.Glob

/-- A component of a pattern between two slashes. -/
inductive Stage where
  | plain (text : String)
  | names (tokens : List Token)
  | directories
  deriving DecidableEq, Repr

/-- The text of tokens that are all plain characters. -/
def plainText? : List Token → Option (List Char)
  | [] => some []
  | .char char :: rest => (plainText? rest).map (char :: ·)
  | _ => none

def Stage.ofTokens (tokens : List Token) : Stage :=
  match plainText? tokens with
  | some text => .plain (String.ofList text)
  | none => if tokens.contains .anyDirectories then .directories else .names tokens

def Stage.matchesName (stage : Stage) (name : String) : Bool :=
  match stage with
  | .plain text => text == name
  | .names tokens => matchTokens tokens name.toList
  | .directories => true

/-- The pieces of a pattern between slashes; a final slash ends the last one. -/
def stageTexts (pattern : List Char) : List (List Char) :=
  let pieces := pattern.splitOn '/'
  if pieces.getLast? = some [] then pieces.dropLast else pieces

/-- One `**` after another adds nothing. -/
def collapse : List Stage → List Stage
  | [] => []
  | stage :: rest =>
      match stage, collapse rest with
      | .directories, .directories :: later => .directories :: later
      | _, later => stage :: later

/-- The stages of a pattern. The pattern is read as a whole first, then piece by
piece, and each reading counts positions from its own start. -/
def stages (pattern : List Char) : Except PatternFault (List Stage) := do
  let _ ← tokens pattern
  let pieces ← (stageTexts pattern).mapM tokens
  .ok (collapse (pieces.map Stage.ofTokens))

/-- Whether the path is spelled as the current directory. -/
def isHere (path : Path) : Bool := path.equivalent Path.here

/-- A name under a path; the current directory itself is not spelled out. -/
def extend (path : Path) (name : String) : Path :=
  if isHere path then ⟨name⟩ else path.join ⟨name⟩

def extendAll (path : Path) : List String → Path
  | [] => path
  | name :: rest => (extend path name).descend rest

/-- The entries of the directory that a path leads to, under their names. -/
def children (tree : FileTree) (path : Path) : List (String × Entry) :=
  match tree.lookup path with
  | .error _ => []
  | .ok found =>
      (tree.contents found).filterMap fun (names, entry) =>
        match names with
        | [name] => some (name, entry)
        | _ => none

/-- What lies so deep below a path, with the names that lead there. -/
def reach (tree : FileTree) : Nat → Path → List (List String × Entry)
  | 0, _ => []
  | depth + 1, path =>
      (children tree path).flatMap fun (name, entry) =>
        let deeper := if entry.isFile then [] else reach tree depth (extend path name)
        ([name], entry) :: deeper.map fun (names, entry) => (name :: names, entry)

/-- Everything below a path. Links may lead back up, but a path that is spelled longer and
longer is soon too long to be followed. -/
def belowPath (tree : FileTree) (path : Path) : List (List String × Entry) :=
  reach tree (Path.lengthLimit + 1) path

/-- Whether an entry that is found under this path is a directory, or a link to one. -/
def opens (tree : FileTree) (path : Path) : Entry → Bool
  | .directory => true
  | .link _ => tree.isDirectory path
  | .file _ => false

/-- The dot entries of a directory, which only a pattern with a literal leading
dot names. -/
def dotNames (tokens : List Token) : List String :=
  if tokens.head? = some (.char '.') then
    [".", ".."].filter fun name => matchTokens tokens name.toList
  else []

/-- The paths that stages lead to from a path. After `**` the next stage is
matched against the names of entries at every depth; a last `**` names every
directory below. -/
def expandFrom (tree : FileTree) : List Stage → Path → List Path
  | [], path => [path]
  | .plain text :: rest, path =>
      let next := extend path text
      let found := if text = "." ∨ text = ".." then tree.isDirectory path
        else tree.pathExists next
      if found then expandFrom tree rest next else []
  | .names tokens :: rest, path =>
      let named := (children tree path).filterMap fun (name, _) =>
        if matchTokens tokens name.toList then some (extend path name) else none
      let dots := if tree.isDirectory path then dotNames tokens else []
      (named ++ dots.map fun name => path.join ⟨name⟩).flatMap (expandFrom tree rest)
  | [.directories], path =>
      (belowPath tree path).filterMap fun (names, entry) =>
        if opens tree (extendAll path names) entry then some (extendAll path names) else none
  | .directories :: stage :: rest, path =>
      ((belowPath tree path).filterMap fun (names, _) =>
        match names.getLast? with
        | some name => if stage.matchesName name then some (extendAll path names) else none
        | none => none).flatMap (expandFrom tree rest)

/-- Where following a pattern starts, and the stages from there. The slash that an absolute
pattern begins with is no stage of its own. -/
def start (pattern : Path) (stages : List Stage) : Path × List Stage :=
  if pattern.isAbsolute then (⟨"/"⟩, stages.tail) else (Path.here, stages)

/-- The directories that a pattern names. An empty pattern names none. -/
def directories (tree : FileTree) (pattern : Path) : Except PatternFault (List Path) := do
  let stages ← stages pattern.text.toList
  match stages with
  | [] => .ok []
  | _ =>
      let (path, rest) := start pattern stages
      .ok ((expandFrom tree rest path).filter tree.isDirectory)

end SourceComments.Glob
