import SourceComments.Proofs.FileTree
import Mathlib.Data.List.Find

/-! The places a path comes by.

Following a path looks at the entries of the directories it steps out of, of the links it
meets and of the place it ends at, and at no others. So what a path reads stays the same
whatever happens elsewhere in the tree. A path that never goes up and meets no link comes by
nothing but the place it names and the directories above that. -/

namespace SourceComments.FileTree

/-- The places that following pieces looks at. Behind a link `jump` goes on. -/
def placesFrom (tree : FileTree) (jump : Location → List String → List Location) :
    Location → List String → List Location
  | location, [] => [location]
  | location, piece :: rest =>
      location ::
        match tree.step location piece with
        | .error _ => []
        | .ok next =>
            match tree.linkAt? next with
            | none => placesFrom tree jump next rest
            | some target =>
                next ::
                  if target.text = "" then []
                  else jump (linkStart next target) (target.pieces ++ rest)

def placesWithin (tree : FileTree) : Nat → Location → List String → List Location
  | 0 => placesFrom tree fun _ _ => []
  | links + 1 => placesFrom tree (placesWithin tree links)

/-- The places a path comes by, from where it starts to where it leads. -/
def way (tree : FileTree) (path : Path) : List Location :=
  match tree.departure path with
  | .ok (some (start, pieces)) => tree.placesWithin linkLimit start pieces
  | .ok none | .error _ => []

/-- The trees have the same working directory, and the same entries at these places. -/
structure AgreeOn (tree other : FileTree) (places : List Location) : Prop where
  workingDirectory : other.workingDirectory = tree.workingDirectory
  removedLevels : other.removedLevels = tree.removedLevels
  entries : ∀ place ∈ places, other.entryAt? place = tree.entryAt? place

section

variable {tree other : FileTree} {location place : Location} {links : Nat}

/-- Where the way goes on behind a link, with one link less to go through. -/
def placesBeyond (tree : FileTree) : Nat → Location → List String → List Location
  | 0, _, _ => []
  | links + 1, location, pieces => tree.placesWithin links location pieces

theorem placesWithin_cons (tree : FileTree) (links : Nat) (location : Location) (piece : String)
    (rest : List String) :
    tree.placesWithin links location (piece :: rest) =
      location ::
        match tree.step location piece with
        | .error _ => []
        | .ok next =>
            match tree.linkAt? next with
            | none => tree.placesWithin links next rest
            | some target =>
                next ::
                  if target.text = "" then []
                  else tree.placesBeyond links (linkStart next target) (target.pieces ++ rest) := by
  cases links <;> rfl

theorem start_mem_places (tree : FileTree) (links : Nat) (location : Location)
    (pieces : List String) : location ∈ tree.placesWithin links location pieces := by
  cases pieces with
  | nil => cases links <;> exact List.mem_cons_self
  | cons piece rest =>
      rw [placesWithin_cons]
      exact List.mem_cons_self

/-- Whether or not there is a link, the place a step leads to is looked at. -/
theorem next_mem_places {piece : String} {rest : List String} {next : Location}
    (moved : tree.step location piece = .ok next) :
    next ∈ tree.placesWithin links location (piece :: rest) := by
  rw [placesWithin_cons, moved]
  apply List.mem_cons_of_mem
  dsimp only
  split
  · exact start_mem_places tree links next rest
  · exact List.mem_cons_self

theorem step_congr {piece : String} (same : other.entryAt? location = tree.entryAt? location) :
    other.step location piece = tree.step location piece := by
  rw [step, step, same]

theorem linkAt?_congr (same : other.entryAt? location = tree.entryAt? location) :
    other.linkAt? location = tree.linkAt? location := by
  rw [linkAt?, linkAt?, same]

theorem followWithin_congr {pieces : List String}
    (same : ∀ place ∈ tree.placesWithin links location pieces,
      other.entryAt? place = tree.entryAt? place) :
    other.followWithin links location pieces = tree.followWithin links location pieces := by
  induction links, location, pieces using followWithin_induct with
  | nil links location => rw [followWithin_nil, followWithin_nil]
  | cons links location piece rest shorter fewer =>
      have here := same location (start_mem_places tree links location (piece :: rest))
      rw [followWithin_cons, followWithin_cons, step_congr here]
      cases moved : tree.step location piece with
      | error fault => rfl
      | ok next =>
          have there := same next (next_mem_places moved)
          rw [placesWithin_cons, moved] at same
          dsimp only at same ⊢
          rw [linkAt?_congr there]
          cases link : tree.linkAt? next with
          | none =>
              rw [link] at same
              exact shorter next fun place member => same place (List.mem_cons_of_mem _ member)
          | some target =>
              rw [link] at same
              dsimp only at same ⊢
              split
              · rfl
              · rename_i somewhere
                rw [if_neg somewhere] at same
                cases links with
                | zero => rfl
                | succ links =>
                    apply fewer links (Nat.lt_succ_self links)
                    intro place member
                    exact same place (List.mem_cons_of_mem _ (List.mem_cons_of_mem _ member))

/-- Where following ends is looked at too. -/
theorem reached_mem_places {pieces : List String} {left : Nat}
    (followed : tree.followWithin links location pieces = .ok (place, left)) :
    place ∈ tree.placesWithin links location pieces := by
  induction links, location, pieces using followWithin_induct with
  | nil links location =>
      rw [followWithin_nil] at followed
      obtain ⟨rfl, -⟩ := Prod.mk.inj (Except.ok.inj followed)
      exact start_mem_places tree links location []
  | cons links location piece rest shorter fewer =>
      rw [followWithin_cons] at followed
      rw [placesWithin_cons]
      apply List.mem_cons_of_mem
      cases moved : tree.step location piece with
      | error fault => simp [moved] at followed
      | ok next =>
          rw [moved] at followed
          dsimp only at followed ⊢
          cases link : tree.linkAt? next with
          | none =>
              rw [link] at followed
              exact shorter next followed
          | some target =>
              rw [link] at followed
              dsimp only at followed ⊢
              apply List.mem_cons_of_mem
              split at followed
              · cases followed
              · rename_i somewhere
                rw [if_neg somewhere]
                cases links with
                | zero => cases followed
                | succ links => exact fewer links (Nat.lt_succ_self links) _ _ followed

theorem departure_congr {path : Path} {places : List Location}
    (agree : AgreeOn tree other places) : other.departure path = tree.departure path := by
  rw [departure, departure, agree.removedLevels, agree.workingDirectory]

/-- A path leads to the same place in every tree that agrees on its way. -/
theorem resolve_congr {path : Path} (agree : AgreeOn tree other (tree.way path)) :
    other.resolve path = tree.resolve path := by
  have same := agree.entries
  rw [resolve, resolve, departure_congr agree]
  rw [way] at same
  split
  · rfl
  · rfl
  · rename_i start pieces begun
    rw [begun] at same
    rw [follow, follow, followWithin_congr same]

/-- Where a path leads is on its way. -/
theorem resolve_mem_way {path : Path} (found : tree.resolve path = .ok (some place)) :
    place ∈ tree.way path := by
  obtain ⟨start, pieces, begun, reached⟩ := resolve_eq_some_iff.mp found
  obtain ⟨left, followed⟩ := follow_eq_ok_iff.mp reached
  rw [way, begun]
  exact reached_mem_places followed

theorem lookup_congr {path : Path} (agree : AgreeOn tree other (tree.way path)) :
    other.lookup path = tree.lookup path := by
  simp only [lookup, resolve_congr agree, bind, Except.bind]
  cases found : tree.resolve path with
  | error fault => rfl
  | ok place? =>
      cases place? with
      | none => rfl
      | some place => simp only [agree.entries place (resolve_mem_way found)]

/-- What is read under a path depends only on the places it comes by. -/
theorem read_congr {path : Path} (agree : AgreeOn tree other (tree.way path)) :
    other.read path = tree.read path := by
  simp only [read, lookup_congr agree]

theorem prefix_foldl_move {pieces : List String} (downward : ".." ∉ pieces) (location : Location) :
    location <+: (Path.laterComponents pieces).foldl Location.move location := by
  induction pieces generalizing location with
  | nil => exact List.prefix_refl location
  | cons piece pieces ih =>
      have later := ih fun member => downward (List.mem_cons_of_mem piece member)
      have other : piece ≠ ".." := fun up => downward (up ▸ List.mem_cons_self)
      rw [Path.laterComponents, if_neg other]
      split
      · exact later location
      · exact (List.prefix_append location [piece]).trans (later (location ++ [piece]))

/-- Without double dots and links there are only directories above the end on the way. -/
theorem prefix_of_mem_places {pieces : List String} (downward : ".." ∉ pieces)
    (unlinked : ∀ place ∈ tree.placesWithin links location pieces, tree.linkAt? place = none)
    (member : place ∈ tree.placesWithin links location pieces) :
    place <+: (Path.laterComponents pieces).foldl Location.move location := by
  induction pieces generalizing location with
  | nil =>
      have only : tree.placesWithin links location [] = [location] := by cases links <;> rfl
      rw [only] at member
      rw [List.mem_singleton.mp member]
      exact List.prefix_refl location
  | cons piece rest ih =>
      rw [placesWithin_cons] at member
      rcases List.mem_cons.mp member with rfl | member
      · exact prefix_foldl_move downward place
      · cases moved : tree.step location piece with
        | error fault => simp [moved] at member
        | ok next =>
            have plain := unlinked next (next_mem_places moved)
            rw [placesWithin_cons, moved] at unlinked
            rw [moved] at member
            dsimp only at unlinked member
            rw [plain] at unlinked member
            have further := ih (fun up => downward (List.mem_cons_of_mem piece up))
              (fun other inside => unlinked other (List.mem_cons_of_mem location inside)) member
            rw [(step_inside moved).2, ← List.foldl_append, ← Path.laterComponents_append]
              at further
            exact further

/-- A path without double dots that meets no link comes by the place it names and the
directories above, and by no other places. -/
theorem prefix_of_mem_way {path : Path} (downward : ".." ∉ path.pieces)
    (unlinked : ∀ place ∈ tree.way path, tree.linkAt? place = none)
    (member : place ∈ tree.way path) : place <+: tree.spelledPlace path := by
  rw [way] at unlinked member
  split at member
  · rename_i start pieces begun
    rw [begun] at unlinked
    rw [spelledPlace_eq begun]
    refine prefix_of_mem_places ?_ unlinked member
    obtain ⟨-, -, ⟨-, -, rfl⟩ | ⟨-, -, left⟩⟩ := departure_eq_some_iff.mp begun
    · exact downward
    · obtain ⟨-, rfl⟩ := leaveRemoved_downward downward left
      exact downward
  · cases member
  · cases member

end

/-- The trees differ in nothing but what they have at the place. -/
structure DifferAt (tree other : FileTree) (place : Location) : Prop where
  workingDirectory : other.workingDirectory = tree.workingDirectory
  removedLevels : other.removedLevels = tree.removedLevels
  elsewhere : ∀ location, location ≠ place → other.entryAt? location = tree.entryAt? location

theorem DifferAt.agreeOn {tree other : FileTree} {place : Location}
    (differ : DifferAt tree other place) {places : List Location} (outside : place ∉ places) :
    AgreeOn tree other places where
  workingDirectory := differ.workingDirectory
  removedLevels := differ.removedLevels
  entries location member := by
    apply differ.elsewhere
    rintro rfl
    exact outside member

/-- Leaving out other entries changes nothing at a location. -/
theorem find?_filter_location {entries : List (Location × Entry)} {keep : Location × Entry → Bool}
    {location : Location} (kept : ∀ entry ∈ entries, entry.1 = location → keep entry = true) :
    (entries.filter keep).find? (·.1 == location) = entries.find? (·.1 == location) := by
  rw [List.find?_filter]
  apply List.find?_congr
  intro entry member
  by_cases here : entry.1 = location
  · simp [here, kept entry member here]
  · simp [here]

/-- Putting an entry changes its own place only. -/
theorem differAt_put (tree : FileTree) (place : Location) (entry : Entry) :
    DifferAt tree (tree.put place entry) place where
  workingDirectory := rfl
  removedLevels := rfl
  elsewhere location other := by
    cases location with
    | nil => rfl
    | cons name names =>
        have absent : [(place, entry)].find? (·.1 == name :: names) = none := by
          simpa using other.symm
        simp only [entryAt?, put, List.find?_append, absent, Option.or_none]
        rw [find?_filter_location]
        intro kept _ here
        simpa [here] using other

/-- Removing an entry with nothing below it changes its own place only. -/
theorem differAt_remove {tree : FileTree} {place : Location}
    (alone : ∀ entry ∈ tree.entries, place <+: entry.1 → entry.1 = place)
    (outside : ¬place <+: tree.workingDirectory) : DifferAt tree (tree.remove place) place := by
  have apart : place.isPrefixOf? tree.workingDirectory = none := by
    rw [Option.eq_none_iff_forall_ne_some]
    intro names split
    exact outside ⟨names, List.isPrefixOf?_eq_some_iff_append_eq.mp split⟩
  rw [remove, apart]
  refine ⟨rfl, rfl, ?_⟩
  intro location other
  cases location with
  | nil => rfl
  | cons name names =>
      simp only [entryAt?]
      rw [find?_filter_location]
      intro entry member here
      rw [Bool.not_eq_true', Bool.eq_false_iff, Ne, List.isPrefixOf_iff_prefix]
      intro below
      exact other (here ▸ alone entry member below)

end SourceComments.FileTree
