import SourceComments.Path

/-! A tree of files, directories and links, and the meaning of paths in it.

Entries are listed under the names that lead to them from the root, which is
always a directory. A path is followed name by name from the working directory;
a dot stays, two dots go up, and the root lies above itself. Names and paths have
a greatest length, so an entry may be there and still be out of a path's reach.

Where following a path comes to a link, it goes on with the link's target, from the
directory that the link is in. So several paths may lead to one file, and a path may
come by places that its spelling does not name. Only so many links are followed for
one path.

The working directory stays in use when it is removed, together with the removed
directories above it: they hold nothing more, and two dots still lead out of them.

A tree leaves out what else can go wrong on a disk. Whatever is listed can be entered
and read, so permissions to read, locks, failing devices and entries of other kinds do
not occur, and nothing but the command itself changes the tree while a command runs.
What can keep a file from being created, or cut it short, is a barrier. -/

namespace SourceComments

/-- The names that lead to an entry from the root. -/
abbrev Location := List String

inductive Entry where
  | file (bytes : ByteArray)
  | directory
  | link (target : Path)

namespace Entry

def isFile : Entry → Bool
  | file _ => true
  | directory | link _ => false

def target? : Entry → Option Path
  | link target => some target
  | file _ | directory => none

end Entry

/-- Why a file or directory cannot be used. -/
inductive FileFault where
  | missing
  | notDirectory
  | isDirectory
  | notText
  | nameTooLong
  | nulInName
  | tooManyLinks
  | denied
  | readOnly
  | noSpace
  deriving DecidableEq, Repr

def FileFault.message : FileFault → String
  | missing => "No such file or directory (os error 2)"
  | notDirectory => "Not a directory (os error 20)"
  | isDirectory => "Is a directory (os error 21)"
  | notText => "stream did not contain valid UTF-8"
  | nameTooLong => "File name too long (os error 36)"
  | nulInName => "file name contained an unexpected NUL byte"
  | tooManyLinks => "Too many levels of symbolic links (os error 40)"
  | denied => "Permission denied (os error 13)"
  | readOnly => "Read-only file system (os error 30)"
  | noSpace => "No space left on device (os error 28)"

namespace Path

/-- The greatest length of a name, in bytes. -/
def nameLimit : Nat := 255

/-- The greatest length of a path that can be followed, in bytes. -/
def lengthLimit : Nat := 4095

/-- What rules a path out by its spelling, wherever it would lead. -/
def spellingFault? (path : Path) : Option FileFault :=
  if path.text.toList.contains '\x00' then some .nulInName
  else if lengthLimit < path.text.utf8ByteSize then some .nameTooLong
  else none

end Path

/-- What a path leads to. -/
inductive Found where
  | file (location : Location) (bytes : ByteArray)
  | directory (location : Location)
  | removedDirectory

/-- What a directory has against new files. -/
inductive Barrier where
  /-- None is created. -/
  | closed (fault : FileFault)
  /-- There is room for this many bytes of one. -/
  | full (room : Nat)
  deriving DecidableEq, Repr

structure FileTree where
  entries : List (Location × Entry) := []
  /-- The working directory, or the nearest directory above it that is not removed. -/
  workingDirectory : Location := []
  /-- How many removed directories lie between that and the working directory, the
  working directory itself included. -/
  removedLevels : Nat := 0
  barriers : List (Location × Barrier) := []

namespace FileTree

def entryAt? (tree : FileTree) (location : Location) : Option Entry :=
  match location with
  | [] => some .directory
  | _ => (tree.entries.find? (·.1 == location)).map Prod.snd

def linkAt? (tree : FileTree) (location : Location) : Option Path :=
  (tree.entryAt? location).bind Entry.target?

/-- One step along a path, allowed only out of a directory. Whether there is anything under
the name shows with the next step, or at the end. -/
def step (tree : FileTree) (location : Location) (piece : String) :
    Except FileFault Location :=
  match tree.entryAt? location with
  | none => .error .missing
  | some (.file _) | some (.link _) => .error .notDirectory
  | some .directory =>
      if piece = "" ∨ piece = "." then .ok location
      else if piece = ".." then .ok location.dropLast
      else if Path.nameLimit < piece.utf8ByteSize then .error .nameTooLong
      else .ok (location ++ [piece])

/-- How many links are followed for one path. -/
def linkLimit : Nat := 40

/-- Where the target of the link at the location is followed from. -/
def linkStart (location : Location) (target : Path) : Location :=
  if target.isAbsolute then [] else location.dropLast

/-- Follows pieces to a location, with `links` links left to go through. At a link `jump`
takes over, with the pieces of its target in front of those that are left. -/
def followFrom (tree : FileTree) (links : Nat)
    (jump : Location → List String → Except FileFault (Location × Nat)) :
    Location → List String → Except FileFault (Location × Nat)
  | location, [] => .ok (location, links)
  | location, piece :: rest =>
      match tree.step location piece with
      | .error fault => .error fault
      | .ok next =>
          match tree.linkAt? next with
          | none => followFrom tree links jump next rest
          | some target =>
              if target.text = "" then .error .missing
              else jump (linkStart next target) (target.pieces ++ rest)

/-- Follows pieces through no more than so many links, and says how many are left. -/
def followWithin (tree : FileTree) : Nat → Location → List String →
    Except FileFault (Location × Nat)
  | 0 => followFrom tree 0 fun _ _ => .error .tooManyLinks
  | links + 1 => followFrom tree (links + 1) (followWithin tree links)

def follow (tree : FileTree) (location : Location) (pieces : List String) :
    Except FileFault Location :=
  (tree.followWithin linkLimit location pieces).map Prod.fst

/-- The pieces that are left when a path is out of the removed directories it
starts in, or none if it ends inside of them. They hold no names. -/
def leaveRemoved : Nat → List String → Except FileFault (Option (List String))
  | 0, pieces => .ok (some pieces)
  | _ + 1, [] => .ok none
  | levels + 1, piece :: rest =>
      if piece = "" ∨ piece = "." then leaveRemoved (levels + 1) rest
      else if piece = ".." then leaveRemoved levels rest
      else .error .missing

/-- Where following a path starts and the pieces to follow from there, or none if the path
ends in a removed directory. -/
def departure (tree : FileTree) (path : Path) :
    Except FileFault (Option (Location × List String)) :=
  match path.spellingFault? with
  | some fault => .error fault
  | none =>
      if path.text = "" then .error .missing
      else if path.isAbsolute then .ok (some ([], path.pieces))
      else (leaveRemoved tree.removedLevels path.pieces).map
        (Option.map (tree.workingDirectory, ·))

/-- Where a path leads: a location, or none if that is a removed directory. The last name
of the path need not be there. -/
def resolve (tree : FileTree) (path : Path) : Except FileFault (Option Location) :=
  match tree.departure path with
  | .error fault => .error fault
  | .ok none => .ok none
  | .ok (some (location, pieces)) => (tree.follow location pieces).map some

def lookup (tree : FileTree) (path : Path) : Except FileFault Found := do
  match ← tree.resolve path with
  | none => .ok .removedDirectory
  | some location =>
      match tree.entryAt? location with
      | some (.file bytes) => .ok (.file location bytes)
      | some .directory => .ok (.directory location)
      | some (.link _) => .error .tooManyLinks
      | none => .error .missing

def pathExists (tree : FileTree) (path : Path) : Bool := (tree.lookup path).isOk

def isFile (tree : FileTree) (path : Path) : Bool :=
  match tree.lookup path with
  | .ok (.file _ _) => true
  | _ => false

def isDirectory (tree : FileTree) (path : Path) : Bool :=
  match tree.lookup path with
  | .ok (.directory _) | .ok .removedDirectory => true
  | _ => false

/-- The text of a file. -/
def read (tree : FileTree) (path : Path) : Except FileFault String := do
  match ← tree.lookup path with
  | .directory _ | .removedDirectory => .error .isDirectory
  | .file _ bytes =>
      match String.fromUTF8? bytes with
      | some text => .ok text
      | none => .error .notText

/-- Everything strictly below a location, with the names that lead there from it. -/
def below (tree : FileTree) (location : Location) : List (List String × Entry) :=
  tree.entries.filterMap fun (place, entry) =>
    match location.isPrefixOf? place with
    | none | some [] => none
    | some names => some (names, entry)

/-- Everything strictly below what a path leads to. -/
def contents (tree : FileTree) : Found → List (List String × Entry)
  | .directory location => tree.below location
  | .file _ _ | .removedDirectory => []

/-- What a walk comes across: a path, or a path that cannot be opened and why. -/
abbrev Visit := Except (Path × FileFault) Path

/-- The visits to an entry below the root of a walk, one for its path and one more
if it is a directory that cannot be opened. In such a directory nothing is visited. -/
def visits (root : Path) (names : List String) (entry : Entry) : List Visit :=
  let path := root.descend names
  if (root.descend names.dropLast).spellingFault?.isSome then []
  else
    match entry, path.spellingFault? with
    | .directory, some fault => [.ok path, .error (path, fault)]
    | _, _ => [.ok path]

/-- A path and everything below it, each spelled from that path on. -/
def walk (tree : FileTree) (root : Path) : List Visit :=
  match tree.lookup root with
  | .error fault => [.error (root, fault)]
  | .ok found =>
      .ok root :: (tree.contents found).flatMap fun (names, entry) => visits root names entry

/-- The tree with this entry at the location, in place of what was there. -/
def put (tree : FileTree) (location : Location) (entry : Entry) : FileTree :=
  { tree with entries := tree.entries.filter (·.1 != location) ++ [(location, entry)] }

def barrierAt? (tree : FileTree) (directory : Location) : Option Barrier :=
  (tree.barriers.find? (·.1 == directory)).map Prod.snd

/-- Creates a file in a directory. Of a file that is cut short, what has been written stays. -/
def create (tree : FileTree) (place : Location) (bytes : ByteArray) :
    FileTree × Option FileFault :=
  match tree.entryAt? place.dropLast with
  | some .directory =>
      match tree.barrierAt? place.dropLast with
      | none => (tree.put place (.file bytes), none)
      | some (.closed fault) => (tree, some fault)
      | some (.full room) =>
          if bytes.size ≤ room then (tree.put place (.file bytes), none)
          else (tree.put place (.file (bytes.extract 0 room)), some .noSpace)
  | _ => (tree, some .missing)

/-- Writes a file, in place of what one held that is there already. -/
def write (tree : FileTree) (path : Path) (bytes : ByteArray) : FileTree × Option FileFault :=
  match tree.resolve path with
  | .error fault => (tree, some fault)
  | .ok none => (tree, some .isDirectory)
  | .ok (some place) =>
      match tree.entryAt? place with
      | some .directory => (tree, some .isDirectory)
      | some (.link _) => (tree, some .tooManyLinks)
      | some (.file _) => (tree.put place (.file bytes), none)
      | none => tree.create place bytes

/-- Every location on the way to this one, outermost first, itself included. -/
def ancestry (location : Location) : List Location :=
  (List.range' 1 location.length).map location.take

/-- The tree without the location and all below it. -/
def remove (tree : FileTree) (location : Location) : FileTree :=
  let kept := tree.entries.filter fun (place, _) => !location.isPrefixOf place
  match location.isPrefixOf? tree.workingDirectory with
  | none => { tree with entries := kept }
  | some names =>
      { tree with
        entries := kept
        workingDirectory := location.dropLast
        removedLevels := tree.removedLevels + names.length + 1 }

end FileTree

end SourceComments
