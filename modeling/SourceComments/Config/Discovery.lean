import SourceComments.Config.Reader
import SourceComments.FileTree
import SourceComments.Text.Quoted

/-! Finding and loading the configuration that applies to a directory.

The search goes from the directory outward along its spelled path, and a
directory with a repository in it is the last one looked at. -/

namespace SourceComments.Config

/-- The nearest configuration file at or above a directory, looking at no more
than `fuel` directories. -/
def findWithin (tree : FileTree) : Nat → Path → Option Path
  | 0, _ => none
  | fuel + 1, directory =>
      let candidate := directory.join ⟨fileName⟩
      if tree.pathExists candidate then some candidate
      else if tree.pathExists (directory.join ⟨".git"⟩) then none
      else
        match directory.parent? with
        | some parent => findWithin tree fuel parent
        | none => none

/-- The configuration file that applies to a directory. A parent's text is shorter
than the path's own, so the length of the path bounds the search. -/
def find? (tree : FileTree) (directory : Path) : Option Path :=
  findWithin tree (directory.text.length + 1) directory

/-- Why the configuration cannot be used. -/
inductive LoadFault where
  | unreadable (path : Path) (fault : FileFault)
  | unparsable (path : Path) (fault : Json.Fault)
  | invalid (problem : Problem)
  deriving DecidableEq, Repr

/-- The fault in words, followed by its cause. -/
def LoadFault.chain : LoadFault → List String
  | unreadable path fault => ["Failed to read config file: " ++ path.text, fault.message]
  | unparsable path fault =>
      ["Failed to parse config file: " ++ Quoted.quote path.text, fault.message]
  | invalid problem => problem.chain

structure Loaded where
  config : Config
  fromFile : Bool
  deriving DecidableEq

/-- The configuration in one file. -/
def loadFile (tree : FileTree) (path : Path) : Except LoadFault Config :=
  match tree.read path with
  | .error fault => .error (.unreadable path fault)
  | .ok text =>
      match parse text with
      | .error fault => .error (.unparsable path fault)
      | .ok config =>
          match config.validate with
          | .error problem => .error (.invalid problem)
          | .ok () => .ok config

/-- The configuration that applies to a directory, or the default one if there is
no file. -/
def load (tree : FileTree) (directory : Path) : Except LoadFault Loaded :=
  match find? tree directory with
  | none => .ok ⟨default, false⟩
  | some path =>
      match loadFile tree path with
      | .error fault => .error fault
      | .ok config => .ok ⟨config, true⟩

end SourceComments.Config
