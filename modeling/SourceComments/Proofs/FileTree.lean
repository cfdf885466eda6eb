import SourceComments.FileTree
import SourceComments.Proofs.Path

/-! Where paths lead.

Following pieces one after another hands on the place reached and the links that are left
to go through, so joined pieces are followed in turn. In a tree without links a path leads
where its components say, whatever else is spelled between them, and two paths that differ
only in the names they end in lead to places that differ in the same names. -/

namespace SourceComments

/-- The place one component further. -/
def Location.move (location : Location) : Component → Location
  | .root => []
  | .here => location
  | .up => location.dropLast
  | .name text => location ++ [text]

theorem Location.foldl_move_names (location : Location) (names : List String) :
    (names.map Component.name).foldl Location.move location = location ++ names := by
  induction names generalizing location with
  | nil => exact (List.append_nil location).symm
  | cons name names ih =>
      rw [List.map_cons, List.foldl_cons, ih, move, List.append_assoc]
      rfl

namespace FileTree

variable {tree : FileTree} {location place : Location}

theorem step_inside {piece : String} (moved : tree.step location piece = .ok place) :
    tree.entryAt? location = some .directory ∧
      place = (Path.laterComponents [piece]).foldl Location.move location := by
  rw [step] at moved
  split at moved
  · cases moved
  · cases moved
  · cases moved
  · rename_i inside
    refine ⟨inside, ?_⟩
    rw [Path.laterComponents]
    split at moved
    · rename_i idle
      rw [if_pos idle]
      exact (Except.ok.inj moved).symm
    · rename_i other
      rw [if_neg other]
      split at moved
      · rename_i up
        rw [if_pos up]
        exact (Except.ok.inj moved).symm
      · rename_i named
        rw [if_neg named]
        split at moved
        · cases moved
        · exact (Except.ok.inj moved).symm

theorem step_idle {piece : String} (inside : tree.entryAt? location = some .directory)
    (idle : Path.Idle piece) : tree.step location piece = .ok location := by
  rw [step, inside]
  exact if_pos idle

theorem step_name {name : String} (inside : tree.entryAt? location = some .directory)
    (proper : Path.IsName name) (short : name.utf8ByteSize ≤ Path.nameLimit) :
    tree.step location name = .ok (location ++ [name]) := by
  simp only [step, inside]
  rw [if_neg (by simp [proper.nonempty, proper.notHere]), if_neg proper.notUp,
    if_neg (Nat.not_lt.mpr short)]

/-- Without double dots a step only leads down. -/
theorem step_downward {piece : String} (downward : piece ≠ "..")
    (moved : tree.step location piece = .ok place) : location <+: place := by
  rw [(step_inside moved).2, Path.laterComponents, if_neg downward]
  split
  · exact List.prefix_refl location
  · exact List.prefix_append location [piece]

theorem linkAt?_of_directory (inside : tree.entryAt? location = some .directory) :
    tree.linkAt? location = none := by
  rw [linkAt?, inside]
  rfl

section

variable {links : Nat}

/-- Going on behind a link, with one link less to go through. -/
def beyond (tree : FileTree) : Nat → Location → List String → Except FileFault (Location × Nat)
  | 0, _, _ => .error .tooManyLinks
  | links + 1, location, pieces => tree.followWithin links location pieces

theorem followWithin_nil (tree : FileTree) (links : Nat) (location : Location) :
    tree.followWithin links location [] = .ok (location, links) := by
  cases links <;> rfl

theorem followWithin_cons (tree : FileTree) (links : Nat) (location : Location) (piece : String)
    (rest : List String) :
    tree.followWithin links location (piece :: rest) =
      match tree.step location piece with
      | .error fault => .error fault
      | .ok next =>
          match tree.linkAt? next with
          | none => tree.followWithin links next rest
          | some target =>
              if target.text = "" then .error .missing
              else tree.beyond links (linkStart next target) (target.pieces ++ rest) := by
  cases links <;> rfl

/-- What holds of pieces if it holds of those behind the first, and of any with fewer links
to go through, holds of all: behind a link there may be more pieces, but fewer links. -/
theorem followWithin_induct {motive : Nat → Location → List String → Prop}
    (nil : ∀ links location, motive links location [])
    (cons : ∀ links location piece rest, (∀ next, motive links next rest) →
      (∀ fewer < links, ∀ next pieces, motive fewer next pieces) →
      motive links location (piece :: rest))
    (links : Nat) (location : Location) (pieces : List String) : motive links location pieces := by
  induction links using Nat.strongRecOn generalizing location pieces with
  | ind links fewer =>
      induction pieces generalizing location with
      | nil => exact nil links location
      | cons piece rest shorter => exact cons links location piece rest shorter fewer

/-- Joined pieces are followed in turn, with the links that the first ones leave. -/
theorem followWithin_append (tree : FileTree) (links : Nat) (location : Location)
    (front back : List String) :
    tree.followWithin links location (front ++ back) =
      (tree.followWithin links location front).bind fun reached =>
        tree.followWithin reached.2 reached.1 back := by
  induction links, location, front using followWithin_induct with
  | nil links location =>
      rw [followWithin_nil]
      rfl
  | cons links location piece front shorter fewer =>
      rw [List.cons_append, followWithin_cons, followWithin_cons]
      cases tree.step location piece with
      | error fault => rfl
      | ok next =>
          dsimp only
          cases tree.linkAt? next with
          | none => exact shorter next
          | some target =>
              dsimp only
              split
              · rfl
              · rw [← List.append_assoc]
                cases links with
                | zero => rfl
                | succ links => exact fewer links (Nat.lt_succ_self links) _ _

theorem followWithin_split {front back : List String} {reached : Location × Nat}
    (followed : tree.followWithin links location (front ++ back) = .ok reached) :
    ∃ between left, tree.followWithin links location front = .ok (between, left) ∧
      tree.followWithin left between back = .ok reached := by
  rw [followWithin_append] at followed
  cases first : tree.followWithin links location front with
  | error fault => simp [first, Except.bind] at followed
  | ok between =>
      rw [first] at followed
      exact ⟨between.1, between.2, rfl, followed⟩

theorem followWithin_inside {pieces : List String} {reached : Location × Nat}
    (some : pieces ≠ []) (followed : tree.followWithin links location pieces = .ok reached) :
    tree.entryAt? location = Option.some .directory := by
  cases pieces with
  | nil => exact absurd rfl some
  | cons piece pieces =>
      rw [followWithin_cons] at followed
      cases moved : tree.step location piece with
      | error fault => simp [moved] at followed
      | ok next => exact (step_inside moved).1

theorem followWithin_idle {pieces : List String}
    (inside : tree.entryAt? location = some .directory) (idle : ∀ piece ∈ pieces, Path.Idle piece) :
    tree.followWithin links location pieces = .ok (location, links) := by
  induction pieces with
  | nil => exact followWithin_nil tree links location
  | cons piece pieces ih =>
      rw [followWithin_cons, step_idle inside (idle piece List.mem_cons_self)]
      simp only [linkAt?_of_directory inside]
      exact ih fun other member => idle other (List.mem_cons_of_mem piece member)

end

theorem follow_eq_ok_iff {pieces : List String} :
    tree.follow location pieces = .ok place ↔
      ∃ left, tree.followWithin linkLimit location pieces = .ok (place, left) := by
  rw [follow]
  cases tree.followWithin linkLimit location pieces with
  | error fault => simp [Except.map]
  | ok reached => simp [Except.map, Prod.ext_iff]

theorem follow_nil (tree : FileTree) (location : Location) :
    tree.follow location [] = .ok location := rfl

theorem follow_inside {pieces : List String} (some : pieces ≠ [])
    (reached : tree.follow location pieces = .ok place) :
    tree.entryAt? location = Option.some .directory := by
  obtain ⟨left, followed⟩ := follow_eq_ok_iff.mp reached
  exact followWithin_inside some followed

theorem follow_idle {pieces : List String} (inside : tree.entryAt? location = some .directory)
    (idle : ∀ piece ∈ pieces, Path.Idle piece) : tree.follow location pieces = .ok location :=
  follow_eq_ok_iff.mpr ⟨_, followWithin_idle inside idle⟩

/-- None of the entries is a link. -/
def Linkless (tree : FileTree) : Prop := ∀ entry ∈ tree.entries, entry.2.target? = none

instance (tree : FileTree) : Decidable tree.Linkless :=
  inferInstanceAs (Decidable (∀ entry ∈ tree.entries, entry.2.target? = none))

/-- A link at a location is among the entries. -/
theorem mem_of_linkAt? {target : Path} (link : tree.linkAt? location = some target) :
    (location, .link target) ∈ tree.entries := by
  obtain ⟨entry, present, aim⟩ := Option.bind_eq_some_iff.mp link
  cases location with
  | nil =>
      obtain rfl : .directory = entry := Option.some.inj present
      cases aim
  | cons name names =>
      rw [entryAt?, Option.map_eq_some_iff] at present
      · obtain ⟨⟨here, kept⟩, listed, rfl⟩ := present
        obtain rfl : here = name :: names := by simpa using List.find?_some listed
        cases kept with
        | file bytes => cases aim
        | directory => cases aim
        | link other =>
            obtain rfl : other = target := Option.some.inj aim
            exact List.mem_of_find?_eq_some listed
      · simp

section

variable (linkless : tree.Linkless)

include linkless

theorem Linkless.linkAt? (location : Location) : tree.linkAt? location = none := by
  rw [Option.eq_none_iff_forall_ne_some]
  intro target link
  cases linkless _ (mem_of_linkAt? link)

/-- Without links, every step is followed by the next. -/
theorem Linkless.follow_cons (location : Location) (piece : String) (rest : List String) :
    tree.follow location (piece :: rest) =
      (tree.step location piece).bind fun next => tree.follow next rest := by
  rw [follow, followWithin_cons]
  cases tree.step location piece with
  | error fault => rfl
  | ok next =>
      simp only [linkless.linkAt?]
      rfl

theorem follow_append (location : Location) (front back : List String) :
    tree.follow location (front ++ back) =
      (tree.follow location front).bind fun between => tree.follow between back := by
  induction front generalizing location with
  | nil => rfl
  | cons piece front ih =>
      rw [List.cons_append, linkless.follow_cons, linkless.follow_cons]
      cases tree.step location piece with
      | error fault => rfl
      | ok next => exact ih next

theorem follow_of_append {front : List String} {between : Location}
    (reached : tree.follow location front = .ok between) (back : List String) :
    tree.follow location (front ++ back) = tree.follow between back := by
  rw [follow_append linkless, reached]
  rfl

theorem follow_split {front back : List String}
    (reached : tree.follow location (front ++ back) = .ok place) :
    ∃ between, tree.follow location front = .ok between ∧ tree.follow between back = .ok place := by
  rw [follow_append linkless] at reached
  cases first : tree.follow location front with
  | error fault => simp [first, Except.bind] at reached
  | ok between =>
      rw [first] at reached
      exact ⟨between, rfl, reached⟩

theorem follow_cons {piece : String} {later : List String}
    (reached : tree.follow location (piece :: later) = .ok place) :
    ∃ next, tree.step location piece = .ok next ∧ tree.follow next later = .ok place := by
  rw [linkless.follow_cons] at reached
  cases moved : tree.step location piece with
  | error fault => simp [moved, Except.bind] at reached
  | ok next =>
      rw [moved] at reached
      exact ⟨next, rfl, reached⟩

theorem follow_stem {path : Path} (reached : tree.follow location path.pieces = .ok place) :
    tree.follow location path.stem = .ok place := by
  rcases path.pieces_eq_stem with same | more
  · rw [← same]
    exact reached
  · rw [more] at reached
    obtain ⟨between, first, later⟩ := follow_split linkless reached
    obtain ⟨next, moved, done⟩ := follow_cons linkless later
    obtain rfl : next = place := Except.ok.inj done
    rw [first, (step_inside moved).2]
    rfl

theorem follow_pieces {path : Path} (inside : tree.entryAt? place = some .directory)
    (reached : tree.follow location path.stem = .ok place) :
    tree.follow location path.pieces = .ok place := by
  rcases path.pieces_eq_stem with same | more
  · rw [same]
    exact reached
  · rw [more, follow_of_append linkless reached]
    apply follow_idle inside
    simp [Path.Idle]

/-- Following a path ends where its components lead. -/
theorem follow_moves {pieces : List String} (reached : tree.follow location pieces = .ok place) :
    place = (Path.laterComponents pieces).foldl Location.move location := by
  induction pieces generalizing location with
  | nil => exact (Except.ok.inj reached).symm
  | cons piece pieces ih =>
      obtain ⟨next, moved, later⟩ := follow_cons linkless reached
      rw [ih later, (step_inside moved).2, ← List.foldl_append, ← Path.laterComponents_append]
      rfl

/-- Without double dots a path only leads down. -/
theorem follow_downward {pieces : List String} (downward : ".." ∉ pieces)
    (reached : tree.follow location pieces = .ok place) : location <+: place := by
  induction pieces generalizing location with
  | nil =>
      obtain rfl : location = place := Except.ok.inj reached
      exact List.prefix_refl location
  | cons piece pieces ih =>
      obtain ⟨next, moved, later⟩ := follow_cons linkless reached
      have below := ih (fun member => downward (List.mem_cons_of_mem piece member)) later
      exact (step_downward (fun up => downward (up ▸ List.mem_cons_self)) moved).trans below

/-- Without double dots a path's parent leads to the directory above, or to the same one if
only a dot is dropped. -/
theorem follow_parent {path parent : Path} (above : path.parent? = some parent)
    (downward : ".." ∉ path.pieces) (reached : tree.follow location path.pieces = .ok place) :
    ∃ upper, tree.entryAt? upper = some .directory ∧
      tree.follow location parent.pieces = .ok upper ∧
      (place = upper ∨ ∃ name, place = upper ++ [name]) := by
  obtain ⟨-, gap, last, after, whole, idle, kept, -, -⟩ := Path.parent?_split above
  rw [whole] at downward
  rw [whole, List.append_assoc] at reached
  obtain ⟨upper, first, later⟩ := follow_split linkless reached
  have inside : tree.entryAt? upper = some .directory := follow_inside (by simp) later
  have passed : tree.follow upper gap = .ok upper :=
    follow_idle inside fun piece member => idle piece (List.mem_append_left after member)
  rw [follow_of_append linkless passed] at later
  obtain ⟨next, moved, done⟩ := follow_cons linkless later
  have stays := follow_moves linkless done
  rw [Path.laterComponents_idle fun piece member => idle piece (List.mem_append_right gap member)]
    at stays
  obtain rfl : place = next := stays
  refine ⟨upper, inside, follow_pieces linkless inside first, ?_⟩
  rw [(step_inside moved).2, Path.laterComponents]
  split
  · exact .inl rfl
  · split
    · rename_i up
      exact absurd (by simp [up]) downward
    · exact .inr ⟨last, rfl⟩

end

/-- Removed directories are left by as many double dots as there are of them. -/
theorem leaveRemoved_components {levels : Nat} {pieces rest : List String}
    (left : leaveRemoved levels pieces = .ok (some rest)) :
    Path.laterComponents pieces =
      List.replicate levels .up ++ Path.laterComponents rest := by
  induction pieces generalizing levels with
  | nil =>
      cases levels with
      | zero =>
          obtain rfl : [] = rest := by simpa [leaveRemoved] using left
          rfl
      | succ levels => simp [leaveRemoved] at left
  | cons piece pieces ih =>
      cases levels with
      | zero =>
          obtain rfl : piece :: pieces = rest := by simpa [leaveRemoved] using left
          rfl
      | succ levels =>
          rw [leaveRemoved] at left
          rw [Path.laterComponents]
          split at left
          · rename_i idle
            rw [if_pos idle, ih left]
          · rename_i other
            split at left
            · rename_i up
              rw [if_neg other, if_pos up, ih left]
              rfl
            · cases left

/-- Without double dots no removed directory is left. -/
theorem leaveRemoved_downward {levels : Nat} {pieces rest : List String}
    (downward : ".." ∉ pieces) (left : leaveRemoved levels pieces = .ok (some rest)) :
    levels = 0 ∧ rest = pieces := by
  cases levels with
  | zero =>
      rw [leaveRemoved] at left
      simpa using left.symm
  | succ levels =>
      have components := leaveRemoved_components left
      have up : .up ∈ Path.laterComponents pieces := by
        rw [components, List.replicate_succ]
        simp
      exact absurd (Path.up_mem_laterComponents up) downward

theorem departure_eq_some_iff {path : Path} {start : Location} {pieces : List String} :
    tree.departure path = .ok (some (start, pieces)) ↔
      path.text ≠ "" ∧ path.spellingFault? = none ∧
        (path.isAbsolute = true ∧ start = [] ∧ pieces = path.pieces ∨
          path.isAbsolute = false ∧ start = tree.workingDirectory ∧
            leaveRemoved tree.removedLevels path.pieces = .ok (some pieces)) := by
  rw [departure]
  cases path.spellingFault? with
  | some fault => simp
  | none =>
      by_cases empty : path.text = ""
      · simp [empty]
      · simp only [if_neg empty]
        cases path.isAbsolute with
        | true => simp [empty, eq_comm]
        | false =>
            rw [if_neg Bool.false_ne_true]
            cases leaveRemoved tree.removedLevels path.pieces with
            | error fault => simp [Except.map]
            | ok rest? => cases rest? <;> simp [Except.map, empty, eq_comm]

/-- A path that leads to a location is followed there from where it starts. -/
theorem resolve_eq_some_iff {path : Path} :
    tree.resolve path = .ok (some place) ↔
      ∃ start pieces, tree.departure path = .ok (some (start, pieces)) ∧
        tree.follow start pieces = .ok place := by
  rw [resolve]
  cases tree.departure path with
  | error fault => simp
  | ok begun? =>
      cases begun? with
      | none => simp
      | some begun =>
          obtain ⟨start, pieces⟩ := begun
          simp only [Except.ok.injEq, Option.some.injEq, Prod.mk.injEq]
          cases reached : tree.follow start pieces with
          | error fault => simp_all [Except.map]
          | ok other => simp_all [Except.map]

theorem resolve_eq_none_iff {path : Path} :
    tree.resolve path = .ok none ↔ tree.departure path = .ok none := by
  rw [resolve]
  cases tree.departure path with
  | error fault => simp
  | ok begun? =>
      cases begun? with
      | none => simp
      | some begun =>
          cases reached : tree.follow begun.1 begun.2 <;> simp [Except.map, reached]

/-- A path that leads anywhere is spelled without fault. -/
theorem spelled_of_resolve {path : Path} {place? : Option Location}
    (found : tree.resolve path = .ok place?) :
    path.text ≠ "" ∧ path.spellingFault? = none := by
  rw [resolve, departure] at found
  cases spelled : path.spellingFault? with
  | some fault => simp [spelled] at found
  | none =>
      refine ⟨fun empty => ?_, rfl⟩
      simp [spelled, empty] at found

/-- Where relative paths start. The removed directories on the way from there are counted
under empty names, which no path leads into. -/
def startingPoint (tree : FileTree) : Location :=
  tree.workingDirectory ++ List.replicate tree.removedLevels ""

/-- The place that the components of a path name, whether or not they can be followed. -/
def spelledPlace (tree : FileTree) (path : Path) : Location :=
  path.components.foldl Location.move tree.startingPoint

theorem foldl_move_up (location : Location) (levels : Nat) :
    (List.replicate levels .up).foldl Location.move (location ++ List.replicate levels "") =
      location := by
  induction levels with
  | zero => exact List.append_nil location
  | succ levels ih =>
      have longer : location ++ List.replicate (levels + 1) "" =
          location ++ List.replicate levels "" ++ [""] := by
        rw [List.replicate_succ', List.append_assoc]
      rw [longer, List.replicate_succ, List.foldl_cons, Location.move, List.dropLast_concat, ih]

/-- The pieces that are followed name the same place. -/
theorem spelledPlace_eq {path : Path} {start : Location} {pieces : List String}
    (begun : tree.departure path = .ok (some (start, pieces))) :
    tree.spelledPlace path = (Path.laterComponents pieces).foldl Location.move start := by
  rw [spelledPlace, Path.components_eq, List.foldl_append]
  obtain ⟨-, -, ⟨absolute, rfl, rfl⟩ | ⟨relative, rfl, left⟩⟩ := departure_eq_some_iff.mp begun
  · rw [Path.lead, if_pos absolute]
    rfl
  · have lead : path.lead.foldl Location.move tree.startingPoint = tree.startingPoint := by
      rw [Path.lead, if_neg (by simp [relative])]
      split <;> rfl
    rw [lead, leaveRemoved_components left, List.foldl_append, startingPoint, foldl_move_up]

/-- Without links, the components of a path say where it leads. -/
theorem resolve_components {path : Path} (linkless : tree.Linkless)
    (found : tree.resolve path = .ok (some place)) : place = tree.spelledPlace path := by
  obtain ⟨start, pieces, begun, reached⟩ := resolve_eq_some_iff.mp found
  rw [spelledPlace_eq begun, follow_moves linkless reached]

/-- Without links, paths that differ in the names they end in lead to places that differ in
those names. -/
theorem resolve_names {path other : Path} {start : List Component}
    {names otherNames : List String} {otherPlace : Location} (linkless : tree.Linkless)
    (spelled : path.components = start ++ names.map .name)
    (otherSpelled : other.components = start ++ otherNames.map .name)
    (found : tree.resolve path = .ok (some place))
    (otherFound : tree.resolve other = .ok (some otherPlace)) :
    ∃ common, place = common ++ names ∧ otherPlace = common ++ otherNames := by
  refine ⟨start.foldl Location.move tree.startingPoint, ?_, ?_⟩
  · rw [resolve_components linkless found, spelledPlace, spelled, List.foldl_append,
      Location.foldl_move_names]
  · rw [resolve_components linkless otherFound, spelledPlace, otherSpelled, List.foldl_append,
      Location.foldl_move_names]

/-- Where following a path starts. -/
def origin (tree : FileTree) (path : Path) : Location :=
  if path.isAbsolute then [] else tree.workingDirectory

/-- With no directory removed under it, a path is followed piece by piece. -/
theorem resolve_eq_follow {path : Path} (spelled : path.spellingFault? = none)
    (some : path.text ≠ "") (settled : path.isAbsolute = false → tree.removedLevels = 0) :
    tree.resolve path = (tree.follow (tree.origin path) path.pieces).map Option.some := by
  have begun : tree.departure path = .ok (Option.some (tree.origin path, path.pieces)) := by
    rw [departure_eq_some_iff, origin]
    refine ⟨some, spelled, ?_⟩
    cases absolute : path.isAbsolute with
    | true => exact .inl ⟨rfl, rfl, rfl⟩
    | false => exact .inr ⟨rfl, rfl, by rw [settled absolute, leaveRemoved]⟩
  simp only [resolve, begun]

theorem pathExists_of_resolve {path : Path} (linkless : tree.Linkless)
    (found : tree.resolve path = .ok (some place)) :
    tree.pathExists path = (tree.entryAt? place).isSome := by
  have followed := linkless.linkAt? place
  simp only [pathExists, lookup, found, bind, Except.bind]
  rw [linkAt?] at followed
  cases present : tree.entryAt? place with
  | none => rfl
  | some entry =>
      cases entry with
      | file bytes => rfl
      | directory => rfl
      | link target =>
          rw [present] at followed
          cases followed

theorem pathExists_of_fault {path : Path} {fault : FileFault}
    (missing : tree.resolve path = .error fault) : tree.pathExists path = false := by
  simp only [pathExists, lookup, missing, bind, Except.bind]
  rfl

/-- What a path leads to, if not a removed directory, is the entry at a location. -/
theorem lookup_cases {path : Path} {found : Found} (led : tree.lookup path = .ok found) :
    (tree.resolve path = .ok none ∧ found = .removedDirectory) ∨
      ∃ place, tree.resolve path = .ok (some place) ∧
        ((∃ bytes, tree.entryAt? place = some (.file bytes) ∧ found = .file place bytes) ∨
          (tree.entryAt? place = some .directory ∧ found = .directory place)) := by
  simp only [lookup, bind, Except.bind] at led
  cases resolved : tree.resolve path with
  | error fault => simp [resolved] at led
  | ok place? =>
      cases place? with
      | none =>
          simp only [resolved, Except.ok.injEq] at led
          exact .inl ⟨rfl, led.symm⟩
      | some place =>
          simp only [resolved] at led
          refine .inr ⟨place, rfl, ?_⟩
          split at led
          · rename_i bytes present
            exact .inl ⟨bytes, present, (Except.ok.inj led).symm⟩
          · rename_i present
            exact .inr ⟨present, (Except.ok.inj led).symm⟩
          · cases led
          · cases led

theorem resolve_of_directory {path : Path} (found : tree.lookup path = .ok (.directory place)) :
    tree.resolve path = .ok (some place) ∧ tree.entryAt? place = some .directory := by
  rcases lookup_cases found with
    ⟨-, removed⟩ | ⟨other, resolved, ⟨bytes, -, file⟩ | ⟨present, same⟩⟩
  · cases removed
  · cases file
  · obtain rfl := Found.directory.inj same
    exact ⟨resolved, present⟩

theorem lookup_of_file {path : Path} (file : tree.isFile path = true) :
    ∃ place bytes, tree.lookup path = .ok (.file place bytes) := by
  rw [isFile] at file
  split at file
  · rename_i place bytes led
    exact ⟨place, bytes, led⟩
  · cases file

theorem resolve_of_file {path : Path} (file : tree.isFile path = true) :
    ∃ place bytes, tree.resolve path = .ok (some place) ∧
      tree.entryAt? place = some (.file bytes) := by
  obtain ⟨place, bytes, led⟩ := lookup_of_file file
  rcases lookup_cases led with ⟨-, other⟩ | ⟨place, resolved, ⟨bytes, present, -⟩ | ⟨-, other⟩⟩
  · cases other
  · exact ⟨place, bytes, resolved, present⟩
  · cases other

/-- What lies below a location is what is listed under more names behind it. -/
theorem mem_below_iff {names : List String} {entry : Entry} :
    (names, entry) ∈ tree.below location ↔
      names ≠ [] ∧ (location ++ names, entry) ∈ tree.entries := by
  rw [below, List.mem_filterMap]
  constructor
  · intro found
    obtain ⟨⟨target, kept⟩, listed, cut⟩ := found
    dsimp only at cut
    split at cut
    · cases cut
    · cases cut
    · rename_i rest some split
      obtain ⟨rfl, rfl⟩ := Prod.mk.inj (Option.some.inj cut)
      rw [List.isPrefixOf?_eq_some_iff_append_eq.mp split]
      exact ⟨some, listed⟩
  · intro found
    obtain ⟨some, listed⟩ := found
    refine ⟨_, listed, ?_⟩
    have split : location.isPrefixOf? (location ++ names) = Option.some names :=
      List.isPrefixOf?_eq_some_iff_append_eq.mpr rfl
    dsimp only
    rw [split]
    cases names with
    | nil => exact absurd rfl some
    | cons name names => rfl

/-- Every name in the tree is one that an entry can have. -/
def Named (tree : FileTree) : Prop :=
  ∀ entry ∈ tree.entries, ∀ name ∈ entry.1, Path.IsName name

instance (tree : FileTree) : Decidable tree.Named :=
  inferInstanceAs (Decidable (∀ entry ∈ tree.entries, ∀ name ∈ entry.1, Path.IsName name))

/-- Only a directory has contents, and these are under proper names. -/
theorem Named.contents (named : tree.Named) {found : Found} {names : List String} {entry : Entry}
    (member : (names, entry) ∈ tree.contents found) :
    (∃ place, found = .directory place) ∧ names ≠ [] ∧ ∀ name ∈ names, Path.IsName name := by
  cases found with
  | file place bytes => cases member
  | removedDirectory => cases member
  | directory place =>
      refine ⟨⟨place, rfl⟩, ?_⟩
      obtain ⟨some, listed⟩ := mem_below_iff.mp member
      refine ⟨some, ?_⟩
      intro name inNames
      exact named _ listed name (List.mem_append_right place inNames)

end FileTree

end SourceComments
