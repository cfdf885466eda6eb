import SourceComments.Command.Run
import Std.Data.HashSet

/-! The program: it takes a picture of the part of the disk that a command can see,
runs the command on it, and prints and writes what the command leaves behind. -/

namespace SourceComments.Program

def locationOf (absolute : String) : Location :=
  (Path.mk absolute).pieces.filter (· ≠ "")

def diskPath (location : Location) : String := "/" ++ "/".intercalate location

/-- Where a path leads on disk, links resolved. -/
def locate? (path : Path) : IO (Option Location) := do
  try
    let real ← IO.FS.realPath (if path.text = "" then Path.here.text else path.text)
    return some (locationOf real.toString)
  catch _ => return none

/-- The entry at a location. A link is taken with the place it leads to in the end, and left
out if there is none. The bytes of a file are taken only if asked for. -/
def entryAt? (location : Location) (withBytes : Bool) : IO (Option Entry) := do
  try
    let directory ← IO.FS.realPath (diskPath location.dropLast)
    let real ← IO.FS.realPath (diskPath location)
    if (← (directory / location.getLastD "").symlinkMetadata).type == .symlink then
      return some (.link ⟨real.toString⟩)
    match (← real.metadata).type with
    | .dir => return some .directory
    | _ =>
        let bytes ← if withBytes then IO.FS.readBinFile real else pure .empty
        return some (.file bytes)
  catch _ => return none

/-- The entry at a location, and what it leads to if it is a link. -/
def entriesAt (location : Location) (withBytes : Bool) : IO (List (Location × Entry)) := do
  match ← entryAt? location withBytes with
  | none => return []
  | some (.link target) =>
      let place := locationOf target.text
      let above := (FileTree.ancestry place).dropLast.map fun directory => (directory, .directory)
      let there := (← entryAt? place withBytes).toList.map fun entry => (place, entry)
      return (location, .link target) :: above ++ there
  | some entry => return [(location, entry)]

/-- Everything below a location. Only configuration files come with their bytes. -/
partial def below (location : Location) : IO (List (Location × Entry)) := do
  let mut found := []
  let children ← try
      let real ← IO.FS.realPath (diskPath location)
      real.readDir
    catch _ => pure #[]
  for child in children do
    let place := location ++ [child.fileName]
    match ← entriesAt place (child.fileName == Config.fileName) with
    | [(_, .directory)] => found := (place, .directory) :: (← below place) ++ found
    | entries => found := entries ++ found
  return found

/-- Everything below locations, and below what the links there lead to. -/
partial def linkedBelow (entered : Std.HashSet Location) :
    List Location → IO (List (Location × Entry))
  | [] => return []
  | location :: others => do
      if entered.contains location then linkedBelow entered others
      else
        let inside ← below location
        let targets := inside.filterMap fun (_, entry) =>
          entry.target?.map fun target => locationOf target.text
        return inside ++ (← linkedBelow (entered.insert location) (targets ++ others))

/-- The directories on the way to a location, each with what the search for a
configuration looks at. -/
def landmarks (location : Location) : IO (List (Location × Entry)) := do
  let mut found := []
  for place in [] :: FileTree.ancestry location do
    match ← entryAt? place false with
    | some .directory =>
        unless place.isEmpty do found := (place, .directory) :: found
        for name in [Config.fileName, ".git"] do
          found := (← entriesAt (place ++ [name]) true) ++ found
    | _ => pure ()
  return found

/-- Everything that following a path can meet, and the file at its end. -/
def alongPath (path : Path) (withBytes : Bool) : IO (List (Location × Entry)) := do
  let mut found := []
  let mut directory? ← locate? (if path.isAbsolute then ⟨"/"⟩ else Path.here)
  for count in List.range' 1 path.pieces.length do
    let front := path.pieces.take count
    let piece := front.getLastD ""
    if let some directory := directory? then
      unless ["", ".", ".."].contains piece do
        found := found ++ (← entriesAt (directory ++ [piece]) withBytes)
    unless front = [""] do
      directory? ← locate? (.ofPieces front)
      if let some location := directory? then found := found ++ (← landmarks location)
  return found

/-- The leading part of a path that holds no wildcard. -/
def plainPart (path : Path) : Path :=
  match path.pieces.takeWhile fun piece => !Glob.isPattern piece && !piece.contains '[' with
  | [] => Path.here
  | [""] => ⟨"/"⟩
  | pieces => .ofPieces pieces

/-- A tree of these entries, the first of each location. -/
def treeOf (working : Location) (entries : List (Location × Entry)) : FileTree := Id.run do
  let mut seen : Std.HashSet Location := {}
  let mut kept := []
  for (location, entry) in entries do
    unless seen.contains location do
      seen := seen.insert location
      kept := (location, entry) :: kept
  return { entries := kept.reverse, workingDirectory := working }

/-- The tree with the bytes of the files at these paths. -/
def withContents (tree : FileTree) (paths : List String) : IO FileTree := do
  let wanted : Std.HashSet Location := .ofList <| paths.filterMap fun path =>
    match tree.lookup ⟨path⟩ with
    | .ok (.file location _) => some location
    | _ => none
  let entries ← tree.entries.mapM fun (location, entry) => do
    if wanted.contains location then
      return (location, (← entryAt? location true).getD entry)
    else return (location, entry)
  return { tree with entries := entries }

/-- The part of the disk that a command can see. -/
def picture (working : Location) (command : Command) : IO FileTree := do
  let around ← landmarks working
  match command with
  | .overview | .init => return treeOf working around
  | .extract options =>
      return treeOf working (around ++ (← alongPath options.file true))
  | .scan options =>
      let root := options.root?.getD Path.here
      let mut near := around ++ (← alongPath root false)
      if let some location ← locate? root then near := near ++ (← below location)
      let includes := match Config.load (treeOf working near) root with
        | .ok loaded => loaded.config.includes
        | .error _ => []
      let mut far := []
      for entry in includes do
        let front := plainPart (root.join ⟨entry⟩)
        far := far ++ (← alongPath front false)
        if let some location ← locate? front then
          far := far ++ (← linkedBelow {} [location])
      let tree := treeOf working (near ++ far)
      match Survey.prepare tree root with
      | .error _ => return tree
      | .ok (survey, _) => withContents tree survey.files.keys

partial def readInput (stream : IO.FS.Stream) (sofar : ByteArray) : IO ByteArray := do
  let chunk ← stream.read 65536
  if chunk.isEmpty then return sofar else readInput stream (sofar ++ chunk)

def usageText : UsageFault → String
  | .helpRequested => Command.overviewText
  | .versionRequested => "comscan 0.1.0\n"
  | .unknownArgument => "error: unexpected argument found\n"
  | .unknownCommand => "error: unrecognized subcommand\n"
  | .repeated => "error: an argument cannot be used multiple times\n"
  | .unneededValue => "error: unexpected value for a flag\n"
  | .badValue => "error: a value is required or invalid\n"
  | .missingArgument => "error: required arguments were not provided\n"

/-- Why the disk did not take a file. -/
def faultOf : IO.Error → FileFault
  | .permissionDenied _ code _ => if code = 30 then .readOnly else .denied
  | .resourceExhausted .. => .noSpace
  | _ => .missing

/-- Runs a command and writes the file it creates. If the disk does not take the file, the
command has run in a directory that is closed. -/
def perform (working : Location) (command : Command) (environment : Environment) :
    IO Outcome := do
  let outcome := command.run environment
  if command = .init ∧ outcome.failure?.isNone then
    let created := working ++ [Config.fileName]
    if let some (.file bytes) := outcome.tree.entryAt? created then
      try
        IO.FS.writeBinFile (diskPath created) bytes
      catch error =>
        let closed := { environment.tree with barriers := [(working, .closed (faultOf error))] }
        return command.run { environment with tree := closed }
  return outcome

def runCommand (command : Command) : IO UInt32 := do
  let stdout ← IO.getStdout
  let stderr ← IO.getStderr
  let working := locationOf (← IO.FS.realPath Path.here.text).toString
  let tree ← picture working command
  let readsInput := match command with
    | .extract options => Command.readsInput options
    | _ => false
  let input ← if readsInput then readInput (← IO.getStdin) .empty else pure .empty
  let colors := (← stdout.isTty) && (← IO.getEnv "NO_COLOR").isNone
  let outcome ← perform working command ⟨tree, input, colors⟩
  stderr.putStr outcome.errors
  stdout.putStr outcome.output
  if let some failure := outcome.failure? then
    stderr.putStrLn ("Error: " ++ ": ".intercalate failure.chain)
  return outcome.status.code.toUInt32

end SourceComments.Program

open SourceComments in
def main (arguments : List String) : IO UInt32 := do
  match Arguments.parse arguments with
  | .ok command => Program.runCommand command
  | .error fault =>
      let stream ← if fault.exitCode = 0 then IO.getStdout else IO.getStderr
      stream.putStr (Program.usageText fault)
      return fault.exitCode.toUInt32
