import SourceComments.Proofs.Command.Extract
import SourceComments.Proofs.Config.RoundTrip
import SourceComments.Proofs.Discovery
import SourceComments.Proofs.FileTree.Addition

/-! Creating a configuration file.

The file says what applies without it, and its own name is not that of a source file. So a scan
of the directory gives what it gave before, and there is nothing left to create a second time.
A directory that is closed stays as it is, and on a full disk the file is cut short. With links
in the tree all this may fail, as the file may be created elsewhere, or appear elsewhere too. -/

namespace SourceComments

namespace Config

theorem parse_default : parse Config.default.render = .ok Config.default :=
  Json.Read.document_of_reads (reader_reads Config.default)

theorem languageFor?_of_fileName {path : Path} (named : path.fileName? = some fileName) :
    Config.default.languageFor? path = none := by
  have extension : path.extension? = some "json" := by
    rw [Path.extension?, named]
    decide
  rw [languageFor?, extension]
  decide

section

variable {tree : FileTree} {directory : Location}

theorem leads_here (linkless : tree.Linkless)
    (inside : tree.lookup Path.here = .ok (.directory directory)) :
    Leads tree Path.here directory :=
  leads_of_lookup linkless inside (by decide +kernel) (by decide +kernel)

theorem workingDirectory_eq (linkless : tree.Linkless)
    (inside : tree.lookup Path.here = .ok (.directory directory)) :
    tree.workingDirectory = directory := by
  have stays := FileTree.follow_moves linkless (leads_here linkless inside).reached
  exact stays.symm

/-- In the working directory, a name alone is found where a dot in front of it leads. -/
theorem leads_empty (linkless : tree.Linkless)
    (inside : tree.lookup Path.here = .ok (.directory directory)) :
    Leads tree ⟨""⟩ directory where
  linkless := linkless
  settled := (leads_here linkless inside).settled
  inside := (leads_here linkless inside).inside
  reached := by
    have present := (leads_here linkless inside).inside
    rw [FileTree.origin, if_neg (by decide), workingDirectory_eq linkless inside]
    apply FileTree.follow_idle present
    intro piece member
    rw [Path.pieces_of_not_mem (by decide)] at member
    exact .inl (List.mem_singleton.mp member)
  downward := by decide
  legible := by decide
  room := by decide

/-- The name of the configuration file leads into the working directory. -/
theorem resolve_fileName (linkless : tree.Linkless)
    (inside : tree.lookup Path.here = .ok (.directory directory)) :
    tree.resolve ⟨fileName⟩ = .ok (some (directory ++ [fileName])) := by
  rw [← Path.join_empty ⟨fileName⟩]
  exact (leads_empty linkless inside).resolve_join sought_fileName

/-- A relative path is followed from the working directory while that is there. -/
theorem resolve_relative (kept : tree.removedLevels = 0) {path : Path}
    (spelled : path.spellingFault? = none) (nonempty : path.text ≠ "")
    (relative : path.isAbsolute = false) :
    tree.resolve path = (tree.follow tree.workingDirectory path.pieces).map some := by
  rw [FileTree.resolve_eq_follow spelled nonempty fun _ => kept, FileTree.origin, relative,
    if_neg Bool.false_ne_true]

theorem lookup_here (kept : tree.removedLevels = 0)
    (inside : tree.entryAt? tree.workingDirectory = some .directory) :
    tree.lookup Path.here = .ok (.directory tree.workingDirectory) := by
  have dot : Path.here.pieces = ["."] := Path.pieces_of_not_mem (by decide)
  refine FileTree.lookup_of_resolve ?_ inside
  rw [resolve_relative kept (by decide) (by decide) (by decide), dot,
    FileTree.follow_idle inside (by simp [Path.Idle])]
  rfl

/-- Where the working directory is not a directory any more, the name leads nowhere. -/
theorem resolve_fileName_of_gone
    (gone : ∀ directory, tree.lookup Path.here ≠ .ok (.directory directory)) :
    ∃ fault, tree.resolve ⟨fileName⟩ = .error fault := by
  have pieces : (Path.mk fileName).pieces = [fileName] := Path.pieces_of_not_mem (by decide)
  cases levels : tree.removedLevels with
  | succ levels =>
      have out : tree.departure ⟨fileName⟩ = .error .missing := by
        simp only [FileTree.departure, levels, pieces]
        rfl
      exact ⟨.missing, by rw [FileTree.resolve, out]⟩
  | zero =>
      rw [resolve_relative levels (by decide) (by decide) (by decide), pieces]
      cases reached : tree.follow tree.workingDirectory [fileName] with
      | error fault => exact ⟨fault, rfl⟩
      | ok place =>
          have inside := FileTree.follow_inside (List.cons_ne_nil _ _) reached
          exact absurd (lookup_here levels inside) (gone _)

theorem find?_here_of_missing (linkless : tree.Linkless)
    (inside : tree.lookup Path.here = .ok (.directory directory))
    (missing : ¬tree.Holds directory fileName) : find? tree Path.here = none := by
  have right := (leads_here linkless inside).answers
  cases answer : find? tree Path.here with
  | none => rfl
  | some file =>
      rw [answer] at right
      obtain ⟨governing, within, governs, -⟩ := right
      rw [FileTree.origin, if_neg (by decide), workingDirectory_eq linkless inside] at within
      obtain rfl := within.eq_of_length_le governs.above.length_le
      exact absurd governs.configured missing

theorem load_here (linkless : tree.Linkless)
    (inside : tree.lookup Path.here = .ok (.directory directory))
    (written : tree.entryAt? (directory ++ [fileName]) =
      some (.file Config.default.render.toUTF8)) :
    load tree Path.here = .ok ⟨Config.default, true⟩ := by
  have leads := leads_here linkless inside
  have holds : tree.Holds directory fileName := by
    rw [FileTree.Holds, written]
    rfl
  have found : find? tree Path.here = some (Path.here.join ⟨fileName⟩) := by
    rw [find?_eq, if_pos ((leads.pathExists_iff sought_fileName).mpr holds)]
  have held : tree.HasText (Path.here.join ⟨fileName⟩) Config.default.render := by
    refine ⟨directory ++ [fileName], ?_⟩
    simp only [FileTree.lookup, leads.resolve_join sought_fileName, written, bind, Except.bind]
  have usable := loadFile_eq_ok_iff.mpr ⟨_, held, parse_default, by decide +kernel⟩
  simp only [load, found, usable]

end

end Config

namespace FileTree

/-- There is room in the directory for a file of these bytes. -/
def Takes (tree : FileTree) (directory : Location) (bytes : ByteArray) : Prop :=
  tree.barrierAt? directory = none ∨
    ∃ room, tree.barrierAt? directory = some (.full room) ∧ bytes.size ≤ room

variable {tree : FileTree} {directory : Location} {name : String} {bytes : ByteArray}

theorem create_of_takes (inside : tree.entryAt? directory = some .directory)
    (takes : tree.Takes directory bytes) :
    tree.create (directory ++ [name]) bytes =
      (tree.put (directory ++ [name]) (.file bytes), none) := by
  rw [create, List.dropLast_concat, inside]
  rcases takes with free | ⟨room, full, fits⟩
  · simp only [free]
  · simp only [full, if_pos fits]

theorem create_of_closed {fault : FileFault} (inside : tree.entryAt? directory = some .directory)
    (closed : tree.barrierAt? directory = some (.closed fault)) :
    tree.create (directory ++ [name]) bytes = (tree, some fault) := by
  rw [create, List.dropLast_concat, inside]
  simp only [closed]

theorem create_of_full {room : Nat} (inside : tree.entryAt? directory = some .directory)
    (full : tree.barrierAt? directory = some (.full room)) (short : room < bytes.size) :
    tree.create (directory ++ [name]) bytes =
      (tree.put (directory ++ [name]) (.file (bytes.extract 0 room)), some .noSpace) := by
  rw [create, List.dropLast_concat, inside]
  simp only [full, if_neg (Nat.not_le.mpr short)]

/-- Nothing is changed but by adding the file, or as much of it as there is room for. -/
theorem create_cases (inside : tree.entryAt? directory = some .directory) :
    (tree.create (directory ++ [name]) bytes).1 = tree ∧
        (tree.create (directory ++ [name]) bytes).2.isSome = true ∨
      ∃ written, (tree.create (directory ++ [name]) bytes).1 =
        tree.put (directory ++ [name]) (.file written) := by
  cases barrier : tree.barrierAt? directory with
  | none => exact .inr ⟨bytes, by rw [create_of_takes inside (.inl barrier)]⟩
  | some kind =>
      cases kind with
      | closed fault =>
          rw [create_of_closed inside barrier]
          exact .inl ⟨rfl, rfl⟩
      | full room =>
          by_cases fits : bytes.size ≤ room
          · exact .inr ⟨bytes, by rw [create_of_takes inside (.inr ⟨room, barrier, fits⟩)]⟩
          · exact .inr ⟨_, by rw [create_of_full inside barrier (Nat.not_le.mp fits)]⟩

end FileTree

namespace Command

section

variable {tree written : FileTree} {directory : Location} {bytes : ByteArray}

/-- What creating a file of these bytes under the configuration's name leaves behind. -/
structure Created (tree after : FileTree) (directory : Location) (bytes : ByteArray) : Prop where
  linkless : tree.Linkless
  inside : tree.lookup Path.here = .ok (.directory directory)
  gains : FileTree.Gains tree after (directory ++ [Config.fileName]) bytes

theorem created_put (linkless : tree.Linkless)
    (inside : tree.lookup Path.here = .ok (.directory directory))
    (missing : ¬tree.Holds directory Config.fileName) (bytes : ByteArray) :
    Created tree (tree.put (directory ++ [Config.fileName]) (.file bytes)) directory bytes := by
  rw [FileTree.Holds, Bool.not_eq_true, Option.isSome_eq_false_iff, Option.isNone_iff_eq_none]
    at missing
  exact ⟨linkless, inside, FileTree.gains_put missing bytes⟩

theorem createConfig_of_holds (linkless : tree.Linkless)
    (inside : tree.lookup Path.here = .ok (.directory directory))
    (holds : tree.Holds directory Config.fileName) :
    createConfig tree = (tree, some .configExists) := by
  have listed := FileTree.pathExists_of_resolve linkless (Config.resolve_fileName linkless inside)
  rw [createConfig, if_pos (listed.trans holds)]

theorem createConfig_of_missing (linkless : tree.Linkless)
    (inside : tree.lookup Path.here = .ok (.directory directory))
    (missing : ¬tree.Holds directory Config.fileName) :
    createConfig tree =
      ((tree.create (directory ++ [Config.fileName]) Config.default.render.toUTF8).1,
        (tree.create (directory ++ [Config.fileName]) Config.default.render.toUTF8).2.map
          .unwritable) := by
  have resolved := Config.resolve_fileName linkless inside
  have listed := FileTree.pathExists_of_resolve linkless resolved
  have unlisted : ¬tree.pathExists ⟨Config.fileName⟩ = true := listed ▸ missing
  rw [FileTree.Holds, Bool.not_eq_true, Option.isSome_eq_false_iff, Option.isNone_iff_eq_none]
    at missing
  rw [createConfig, if_neg unlisted]
  simp only [FileTree.write, resolved, missing]

theorem createConfig_of_gone
    (gone : ∀ directory, tree.lookup Path.here ≠ .ok (.directory directory)) :
    ∃ failure, createConfig tree = (tree, some failure) := by
  obtain ⟨fault, resolved⟩ := Config.resolve_fileName_of_gone gone
  refine ⟨.unwritable fault, ?_⟩
  rw [createConfig, FileTree.pathExists_of_fault resolved, if_neg Bool.false_ne_true]
  simp only [FileTree.write, resolved]
  rfl

/-- Creating a configuration is refused, or adds a file where there was none. -/
theorem createConfig_cases (linkless : tree.Linkless) :
    (∃ failure, createConfig tree = (tree, some failure)) ∨
      ∃ directory bytes, Created tree (createConfig tree).1 directory bytes := by
  by_cases somewhere : ∃ directory, tree.lookup Path.here = .ok (.directory directory)
  · obtain ⟨directory, inside⟩ := somewhere
    by_cases holds : tree.Holds directory Config.fileName
    · exact .inl ⟨_, createConfig_of_holds linkless inside holds⟩
    · rw [createConfig_of_missing linkless inside holds]
      rcases FileTree.create_cases (FileTree.resolve_of_directory inside).2 with
        ⟨same, failed⟩ | ⟨written, put⟩
      · obtain ⟨fault, failed⟩ := Option.isSome_iff_exists.mp failed
        exact .inl ⟨.unwritable fault, by rw [same, failed]; rfl⟩
      · refine .inr ⟨directory, written, ?_⟩
        rw [put]
        exact created_put linkless inside holds written
  · exact .inl (createConfig_of_gone (not_exists.mp somewhere))

namespace Created

variable (created : Created tree written directory bytes)

include created

theorem missing : ¬tree.Holds directory Config.fileName := by
  rw [FileTree.Holds, created.gains.absent]
  decide

theorem linklessStill : written.Linkless := created.gains.linkless created.linkless

theorem insideStill : written.lookup Path.here = .ok (.directory directory) :=
  created.gains.lookup created.linkless created.inside

theorem outside : ¬directory ++ [Config.fileName] <+: tree.workingDirectory := by
  rw [Config.workingDirectory_eq created.linkless created.inside]
  intro within
  have longer := within.length_le
  rw [List.length_append, List.length_singleton] at longer
  omega

/-- A second file is never created, not even in place of one that was cut short. -/
theorem createConfig_again : createConfig written = (written, some .configExists) := by
  apply createConfig_of_holds created.linklessStill created.insideStill
  rw [FileTree.Holds, created.gains.present]
  rfl

/-- The default configuration finds the same in the directory with its file and without. -/
theorem scanFindings_eq {options : ScanOptions} (unrooted : options.root? = none) :
    scanFindings written options Config.default = scanFindings tree options Config.default := by
  have selected := created.gains.select_files created.linkless created.outside
    Config.sought_fileName.toIsName created.inside rfl
    fun _ => Config.languageFor?_of_fileName
  -- The same files are selected, and every one of them holds what it held.
  simp only [scanFindings, unrooted, Option.getD_none, selected]
  rw [Survey.extractAll_congr]
  intro path own listed
  obtain ⟨-, -, -, file⟩ := Selection.mem_entries.mp listed
  exact created.gains.read created.linkless file

end Created

section

variable (created : Created tree written directory Config.default.render.toUTF8)

include created

theorem Created.load : Config.load written Path.here = .ok ⟨Config.default, true⟩ :=
  Config.load_here created.linklessStill created.insideStill created.gains.present

theorem Created.run_scan_eq {input : ByteArray} {colors : Bool} {options : ScanOptions}
    (unrooted : options.root? = none) :
    (run ⟨written, input, colors⟩ (.scan options)).output =
        (run ⟨tree, input, colors⟩ (.scan options)).output ∧
      (run ⟨written, input, colors⟩ (.scan options)).status =
        (run ⟨tree, input, colors⟩ (.scan options)).status := by
  have before : Config.Applies tree (options.root?.getD Path.here) Config.default := by
    rw [unrooted]
    exact .default (Config.find?_here_of_missing created.linkless created.inside created.missing)
  have after : Config.Applies written (options.root?.getD Path.here) Config.default := by
    rw [unrooted]
    exact Config.load_eq_ok_iff.mp ⟨true, created.load⟩
  obtain ⟨statusBefore, outputBefore⟩ := @run_scan_of_applies ⟨tree, input, colors⟩ _ _ before
  obtain ⟨statusAfter, outputAfter⟩ := @run_scan_of_applies ⟨written, input, colors⟩ _ _ after
  rw [statusBefore, outputBefore, statusAfter, outputAfter, created.scanFindings_eq unrooted]
  exact ⟨rfl, rfl⟩

end

end

section

variable {environment : Environment}

theorem run_init_of_none {written : FileTree}
    (done : createConfig environment.tree = (written, none)) :
    run environment .init =
      succeed environment .text (.created Config.fileName) "" written := by
  unfold run
  simp only [done]

theorem run_init_of_some {written : FileTree} {failure : Failure}
    (failed : createConfig environment.tree = (written, some failure)) :
    run environment .init = { fail environment failure with tree := written } := by
  unfold run
  simp only [failed]

/-- The tree once a configuration file was to be created in its working directory. -/
def configured (tree : FileTree) : FileTree := (createConfig tree).1

/-- What one command does to the tree. -/
theorem tree_run (environment : Environment) (command : Command) :
    (run environment command).tree =
      if command = .init then configured environment.tree else environment.tree := by
  cases command with
  | overview => rfl
  | scan options =>
      rw [if_neg (by simp)]
      cases scanned : scanRoot environment.tree options with
      | error failure => rw [run_scan_of_error scanned, fail]
      | ok found => rw [run_scan_of_ok scanned, succeed]
  | extract options =>
      rw [if_neg (by simp)]
      cases found : extractOne environment options with
      | error failure => rw [run_extract_of_error found, fail]
      | ok findings => rw [run_extract_of_ok found, succeed]
  | init =>
      rw [if_pos rfl, configured]
      cases done : createConfig environment.tree with
      | mk written failure? =>
          cases failure? with
          | none => rw [run_init_of_none done, succeed]
          | some failure => rw [run_init_of_some done]

section

variable {tree : FileTree}

theorem linkless_configured (linkless : tree.Linkless) : (configured tree).Linkless := by
  rw [configured]
  rcases createConfig_cases linkless with ⟨failure, refused⟩ | ⟨directory, bytes, created⟩
  · rw [refused]
    exact linkless
  · exact created.linklessStill

theorem configured_configured (linkless : tree.Linkless) :
    configured (configured tree) = configured tree := by
  rw [configured, configured]
  rcases createConfig_cases linkless with ⟨failure, refused⟩ | ⟨directory, bytes, created⟩
  · rw [refused, refused]
  · rw [created.createConfig_again]

theorem entryAt?_configured (linkless : tree.Linkless) {place : Location} {entry : Entry}
    (present : tree.entryAt? place = some entry) :
    (configured tree).entryAt? place = some entry := by
  rw [configured]
  rcases createConfig_cases linkless with ⟨failure, refused⟩ | ⟨directory, bytes, created⟩
  · rw [refused]
    exact present
  · exact created.gains.entryAt? present

end

end

/-- A command with what it is given besides the tree. -/
structure Invocation where
  command : Command
  input : ByteArray := .empty
  colors : Bool := false

/-- The tree after commands that are run one after another. -/
def session (tree : FileTree) (steps : List Invocation) : FileTree :=
  steps.foldl (fun tree step => (run ⟨tree, step.input, step.colors⟩ step.command).tree) tree

/-- However many commands create a configuration file, only the first can. -/
theorem session_eq {tree : FileTree} (linkless : tree.Linkless) (steps : List Invocation) :
    session tree steps =
      if steps.any fun step => step.command = .init then configured tree else tree := by
  induction steps generalizing tree with
  | nil => rfl
  | cons step steps ih =>
      have first : session tree (step :: steps) =
          session (run ⟨tree, step.input, step.colors⟩ step.command).tree steps := rfl
      rw [first, tree_run, List.any_cons]
      by_cases creates : step.command = .init
      · -- The others start from a tree where the attempt was made, and another does nothing.
        rw [if_pos creates, ih (linkless_configured linkless)]
        simp [creates, configured_configured linkless]
      · rw [if_neg creates, ih linkless]
        simp [creates]

/-- The command is an error and leaves the tree as it is. -/
structure Refuses (environment : Environment) (command : Command) : Prop where
  status : (run environment command).status.code = 2
  unchanged : (run environment command).tree = environment.tree

/-- The command adds the default configuration to the directory, and no scan of the directory
shows it. -/
structure Initialises (environment : Environment) (directory : Location) : Prop where
  status : (run environment .init).status.code = 0
  gains : FileTree.Gains environment.tree (run environment .init).tree
    (directory ++ [Config.fileName]) Config.default.render.toUTF8
  loaded : Config.load (run environment .init).tree Path.here = .ok ⟨Config.default, true⟩
  transparent : ∀ (input : ByteArray) (colors : Bool) (options : ScanOptions),
    options.root? = none →
      (run ⟨(run environment .init).tree, input, colors⟩ (.scan options)).output =
          (run ⟨environment.tree, input, colors⟩ (.scan options)).output ∧
        (run ⟨(run environment .init).tree, input, colors⟩ (.scan options)).status =
          (run ⟨environment.tree, input, colors⟩ (.scan options)).status

/-- The command is an error and adds so many bytes of the default configuration. -/
structure Abandons (environment : Environment) (directory : Location) (room : Nat) : Prop where
  status : (run environment .init).status.code = 2
  gains : FileTree.Gains environment.tree (run environment .init).tree
    (directory ++ [Config.fileName]) (Config.default.render.toUTF8.extract 0 room)

section

variable {environment : Environment} {directory : Location}

theorem refuses_of_some {failure : Failure}
    (refused : createConfig environment.tree = (environment.tree, some failure)) :
    Refuses environment .init := by
  constructor
  · rw [run_init_of_some refused]
    rfl
  · rw [run_init_of_some refused]

variable (linkless : environment.tree.Linkless)
  (inside : environment.tree.lookup Path.here = .ok (.directory directory))
  (missing : ¬environment.tree.Holds directory Config.fileName)

include linkless inside missing

theorem refuses_of_closed {fault : FileFault}
    (closed : environment.tree.barrierAt? directory = some (.closed fault)) :
    Refuses environment .init := by
  have refused := createConfig_of_missing linkless inside missing
  rw [FileTree.create_of_closed (FileTree.resolve_of_directory inside).2 closed] at refused
  exact refuses_of_some refused

theorem abandons_of_full {room : Nat}
    (full : environment.tree.barrierAt? directory = some (.full room))
    (short : room < Config.default.render.toUTF8.size) : Abandons environment directory room := by
  have failed := createConfig_of_missing linkless inside missing
  rw [FileTree.create_of_full (FileTree.resolve_of_directory inside).2 full short] at failed
  constructor
  · rw [run_init_of_some failed]
    rfl
  · rw [run_init_of_some failed]
    exact (created_put linkless inside missing _).gains

theorem initialises_of_takes
    (takes : environment.tree.Takes directory Config.default.render.toUTF8) :
    Initialises environment directory := by
  have done := createConfig_of_missing linkless inside missing
  rw [FileTree.create_of_takes (FileTree.resolve_of_directory inside).2 takes] at done
  have created := created_put linkless inside missing Config.default.render.toUTF8
  have after : (run environment .init).tree =
      environment.tree.put (directory ++ [Config.fileName])
        (.file Config.default.render.toUTF8) := by
    rw [run_init_of_none done, succeed]
  constructor
  · rw [run_init_of_none done]
    rfl
  · rw [after]
    exact created.gains
  · rw [after]
    exact created.load
  · rw [after]
    intro input colors options unrooted
    exact created.run_scan_eq unrooted

end

/-- In a tree without links: in a directory that has a configuration, creating one is an error
and changes nothing. In one that has none and takes the file, it adds the default configuration,
which applied before, and no scan of the directory gives anything else than it did. In one that
is closed, or where the working directory is gone, it is an error that changes nothing, and on
a full disk one that adds what there is room for. In any sequence of commands only the first
that creates a configuration can change the tree, and nothing in it is ever replaced. -/
theorem run_init_transparent (environment : Environment)
    (linkless : environment.tree.Linkless) :
    (∀ directory, environment.tree.lookup Path.here = .ok (.directory directory) →
      (environment.tree.Holds directory Config.fileName → Refuses environment .init) ∧
      (¬environment.tree.Holds directory Config.fileName →
        (environment.tree.Takes directory Config.default.render.toUTF8 →
          Initialises environment directory) ∧
        (∀ fault, environment.tree.barrierAt? directory = some (.closed fault) →
          Refuses environment .init) ∧
        ∀ room, environment.tree.barrierAt? directory = some (.full room) →
          room < Config.default.render.toUTF8.size → Abandons environment directory room)) ∧
    ((∀ directory, environment.tree.lookup Path.here ≠ .ok (.directory directory)) →
      Refuses environment .init) ∧
    (∀ steps, (∀ step ∈ steps, step.command ≠ .init) →
      session environment.tree steps = environment.tree) ∧
    (∀ steps, (∃ step ∈ steps, step.command = .init) →
      session environment.tree steps = (run environment .init).tree) ∧
    ∀ steps place entry, environment.tree.entryAt? place = some entry →
      (session environment.tree steps).entryAt? place = some entry := by
  refine ⟨?_, ?_, ?_, ?_, ?_⟩
  · intro directory inside
    constructor
    · intro holds
      exact refuses_of_some (createConfig_of_holds linkless inside holds)
    · intro missing
      exact ⟨initialises_of_takes linkless inside missing,
        fun _ => refuses_of_closed linkless inside missing,
        fun _ => abandons_of_full linkless inside missing⟩
  · intro gone
    obtain ⟨failure, refused⟩ := createConfig_of_gone gone
    exact refuses_of_some refused
  · intro steps quiet
    rw [session_eq linkless, if_neg]
    simpa using quiet
  · intro steps creates
    rw [session_eq linkless, tree_run, if_pos rfl, if_pos]
    simpa using creates
  · intro steps place entry present
    rw [session_eq linkless]
    split
    · exact entryAt?_configured linkless present
    · exact present

/-- A working directory that is removed while it is in use. -/
def vacated : FileTree :=
  FileTree.remove { entries := [(["sub"], .directory)], workingDirectory := ["sub"] } ["sub"]

/-- The workshop with something against new files in it. -/
def barred (barrier : Barrier) : FileTree := { Survey.workshop with barriers := [([], barrier)] }

/-- A configuration file that is a link to a source file, and there is none. -/
def dangling : FileTree where
  entries := [([Config.fileName], .link ⟨"x.c"⟩)]

/-- In the workshop the first of two attempts creates the file, and a scan does not show it.
Where there is one already, or no directory, the first attempt fails too, as it does where the
directory is closed or the disk is full. -/
theorem run_init_transparent_in_workshop :
    (run ⟨Survey.workshop, .empty, false⟩ .init).status.code = 0 ∧
      (session Survey.workshop [⟨.init, .empty, false⟩, ⟨.init, .empty, true⟩]).entryAt?
        [Config.fileName] = some (.file Config.default.render.toUTF8) ∧
      (run ⟨(run ⟨Survey.workshop, .empty, false⟩ .init).tree, .empty, true⟩ (.scan {})).output =
        (run ⟨Survey.workshop, .empty, true⟩ (.scan {})).output ∧
      Refuses ⟨Config.nested ["w"], .empty, false⟩ .init ∧
      Refuses ⟨vacated, .empty, false⟩ .init ∧
      Refuses ⟨barred (.closed .denied), .empty, false⟩ .init ∧
      Abandons ⟨barred (.full 5), .empty, false⟩ [] 5 := by
  obtain ⟨decided, -, -, once, -⟩ :=
    run_init_transparent ⟨Survey.workshop, .empty, false⟩ (by decide)
  have started : Initialises ⟨Survey.workshop, .empty, false⟩ [] :=
    ((decided [] rfl).2 (by decide +kernel)).1 (.inl rfl)
  refine ⟨started.status, ?_, (started.transparent .empty true {} rfl).1, ?_, ?_, ?_, ?_⟩
  · rw [once _ ⟨_, List.mem_cons_self, rfl⟩]
    exact started.gains.present
  · obtain ⟨decided, -⟩ := run_init_transparent ⟨Config.nested ["w"], .empty, false⟩ (by decide)
    exact (decided ["w"] rfl).1 (by decide +kernel)
  · obtain ⟨-, gone, -⟩ := run_init_transparent ⟨vacated, .empty, false⟩ (by decide +kernel)
    apply gone
    intro directory inside
    have removed : vacated.lookup Path.here = .ok .removedDirectory := rfl
    cases removed.symm.trans inside
  · obtain ⟨decided, -⟩ :=
      run_init_transparent ⟨barred (.closed .denied), .empty, false⟩ (by decide)
    exact ((decided [] rfl).2 (by decide +kernel)).2.1 .denied rfl
  · obtain ⟨decided, -⟩ := run_init_transparent ⟨barred (.full 5), .empty, false⟩ (by decide)
    exact ((decided [] rfl).2 (by decide +kernel)).2.2 5 rfl (by decide +kernel)

/-- There is no configuration in any of these, and yet the command fails: where the directory
has been removed, where it is closed, and where the disk is full. Through a link that leads
nowhere it adds another file. -/
theorem run_init_fails_without_config :
    (vacated.pathExists ⟨Config.fileName⟩ = false ∧
        (run ⟨vacated, .empty, false⟩ .init).status.code = 2) ∧
      ((barred (.closed .denied)).pathExists ⟨Config.fileName⟩ = false ∧
        (run ⟨barred (.closed .denied), .empty, false⟩ .init).status.code = 2) ∧
      ((barred (.full 5)).pathExists ⟨Config.fileName⟩ = false ∧
        (run ⟨barred (.full 5), .empty, false⟩ .init).status.code = 2) ∧
      dangling.pathExists ⟨Config.fileName⟩ = false ∧ dangling.isFile ⟨"x.c"⟩ = false ∧
        (run ⟨dangling, .empty, false⟩ .init).tree.isFile ⟨"x.c"⟩ = true := by
  decide +kernel

end Command

end SourceComments
