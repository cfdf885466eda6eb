/-! Paths as they are spelled.

A path is its text. Nothing is normalised when paths are joined or printed; only
comparison and shortening look at the components between the slashes.

The names of a disk may be any bytes without a slash. Here they are Unicode texts, so every
path can be printed and compared as it stands, and no two of them are printed alike. -/

namespace SourceComments

structure Path where
  text : String
  deriving DecidableEq, Repr

/-- A component that takes part in comparison. -/
inductive Component where
  | root
  | here
  | up
  | name (text : String)
  deriving DecidableEq, Repr

namespace Path

/-- The current directory. -/
def here : Path := ⟨"."⟩

def isAbsolute (path : Path) : Bool := path.text.toList.head? == some '/'

/-- The text between the slashes, empty pieces included. -/
def pieces (path : Path) : List String :=
  (path.text.toList.splitOn '/').map String.ofList

/-- The text whose pieces these are. -/
def ofPieces (pieces : List String) : Path := ⟨"/".intercalate pieces⟩

/-- One slash goes between the two, unless the left side is empty or already ends
in one. An absolute right side stands alone. -/
def join (base rest : Path) : Path :=
  if rest.isAbsolute then rest
  else if base.text = "" then rest
  else if base.text.endsWith '/' then ⟨base.text ++ rest.text⟩
  else ⟨base.text ++ "/" ++ rest.text⟩

/-- A directory's path extended by names further and further below it. -/
def descend (base : Path) (names : List String) : Path :=
  names.foldl (fun path name => path.join ⟨name⟩) base

/-- Components of pieces that do not start the path: an empty piece or a dot
changes nothing. -/
def laterComponents : List String → List Component
  | [] => []
  | piece :: rest =>
      if piece = "" ∨ piece = "." then laterComponents rest
      else if piece = ".." then .up :: laterComponents rest
      else .name piece :: laterComponents rest

/-- A dot counts only where it starts the path. -/
def components (path : Path) : List Component :=
  if path.isAbsolute then .root :: laterComponents path.pieces
  else
    match path.pieces with
    | "." :: rest => .here :: laterComponents rest
    | pieces => laterComponents pieces

/-- Whether the path's components begin with those of the other. -/
def startsWith (path start : Path) : Bool := start.components.isPrefixOf path.components

/-- Whether two spellings have the same components. -/
def equivalent (left right : Path) : Bool := left.components == right.components

/-- Drops what stands after the last component, from pieces given last to first. -/
def trimEnd : List String → List String
  | [] => []
  | piece :: earlier =>
      if piece = "" ∨ (piece = "." ∧ earlier ≠ []) then trimEnd earlier
      else piece :: earlier

/-- The path without its last component, spelled as before. A root and an empty
path have no last component. -/
def parent? (path : Path) : Option Path :=
  match trimEnd path.pieces.reverse with
  | [] => none
  | _ :: earlier =>
      match trimEnd earlier with
      | [] => some (if path.isAbsolute then ⟨"/"⟩ else ⟨""⟩)
      | kept => some (ofPieces kept.reverse)

/-- The name the path ends in. -/
def fileName? (path : Path) : Option String :=
  match path.components.getLast? with
  | some (.name text) => some text
  | _ => none

/-- The text after a name's last dot, unless that dot is missing or comes first. -/
def extensionOf? (name : List Char) : Option (List Char) :=
  match name.reverse.span (· ≠ '.') with
  | (_, []) => none
  | (_, [_]) => none
  | (reversed, _ :: _ :: _) => some reversed.reverse

def extension? (path : Path) : Option String :=
  path.fileName?.bind fun name => (extensionOf? name.toList).map String.ofList

end Path

end SourceComments
