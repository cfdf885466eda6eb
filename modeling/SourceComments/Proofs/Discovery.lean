import SourceComments.Config.Discovery
import SourceComments.Proofs.FileTree

/-! Which configuration applies to a directory.

The search shortens the path as it is spelled. As long as no double dots are in it and no
links are met, each shorter path leads to the directory above, so the file found is that of
the nearest directory that has one, unless a repository comes first. But a relative path gets
no shorter than the empty one: nothing above the working directory is ever looked at. -/

namespace SourceComments

/-- The directory has an entry of this name. -/
def FileTree.Holds (tree : FileTree) (directory : Location) (name : String) : Prop :=
  (tree.entryAt? (directory ++ [name])).isSome = true

instance (tree : FileTree) (directory : Location) (name : String) :
    Decidable (tree.Holds directory name) :=
  inferInstanceAs (Decidable (_ = true))

namespace Config

/-- The directory's configuration applies to all that starts at `start`: none of the
directories on the way down there has one of its own or a repository. -/
structure Governs (tree : FileTree) (start directory : Location) : Prop where
  above : directory <+: start
  configured : tree.Holds directory fileName
  nearest : ∀ between, directory <+: between → between ≠ directory → between <+: start →
    ¬tree.Holds between fileName ∧ ¬tree.Holds between ".git"

section

variable {tree : FileTree} {start directory : Location}

theorem governs_self (configured : tree.Holds start fileName) : Governs tree start start where
  above := List.prefix_refl start
  configured := configured
  nearest _ below other within := absurd (within.eq_of_length_le below.length_le) other

theorem not_governs_of_repository (plain : ¬tree.Holds start fileName)
    (repository : tree.Holds start ".git") : ¬Governs tree start directory := by
  intro governs
  have other : start ≠ directory := by
    rintro rfl
    exact plain governs.configured
  exact (governs.nearest start governs.above other (List.prefix_refl start)).2 repository

/-- A directory with neither file passes the question on to the one above. -/
theorem governs_above {name : String} (plain : ¬tree.Holds (start ++ [name]) fileName)
    (free : ¬tree.Holds (start ++ [name]) ".git") :
    Governs tree (start ++ [name]) directory ↔ Governs tree start directory := by
  constructor
  · intro governs
    constructor
    · rcases List.prefix_concat_iff.mp governs.above with rfl | within
      · exact absurd governs.configured plain
      · exact within
    · exact governs.configured
    · intro between below other within
      exact governs.nearest between below other (within.trans (List.prefix_append start [name]))
  · intro governs
    constructor
    · exact governs.above.trans (List.prefix_append start [name])
    · exact governs.configured
    · intro between below other within
      rcases List.prefix_concat_iff.mp within with rfl | deeper
      · exact ⟨plain, free⟩
      · exact governs.nearest between below other deeper

/-- The right answer to a search that starts at `start` and looks no higher than `outer`:
the file of the directory that governs, if there is one. -/
def Answers (tree : FileTree) (outer start : Location) : Option Path → Prop
  | some file => ∃ directory, outer <+: directory ∧ Governs tree start directory ∧
      tree.resolve file = .ok (some (directory ++ [fileName]))
  | none => ∀ directory, outer <+: directory → ¬Governs tree start directory

theorem Answers.below {outer : Location} {answer : Option Path} {name : String}
    (plain : ¬tree.Holds (start ++ [name]) fileName)
    (free : ¬tree.Holds (start ++ [name]) ".git") (right : Answers tree outer start answer) :
    Answers tree outer (start ++ [name]) answer := by
  cases answer with
  | some file =>
      obtain ⟨directory, within, governs, resolved⟩ := right
      exact ⟨directory, within, (governs_above plain free).mpr governs, resolved⟩
  | none =>
      intro directory within governs
      exact right directory within ((governs_above plain free).mp governs)

end

theorem findWithin_enough (tree : FileTree) {fuel : Nat} {path : Path}
    (enough : path.text.length < fuel) : findWithin tree fuel path = find? tree path := by
  suffices agree : ∀ fuel other path, path.text.length < fuel → path.text.length < other →
      findWithin tree fuel path = findWithin tree other path from
    agree fuel _ path enough (Nat.lt_succ_self _)
  intro fuel
  induction fuel with
  | zero =>
      intro other path enough
      exact absurd enough (Nat.not_lt_zero _)
  | succ fuel ih =>
      intro other path enough enoughToo
      cases other with
      | zero => exact absurd enoughToo (Nat.not_lt_zero _)
      | succ other =>
          rw [findWithin, findWithin]
          cases above : path.parent? with
          | none => rfl
          | some parent =>
              have shorter := Path.parent?_length above
              simp only [ih other parent (by omega) (by omega)]

/-- One round of the search. -/
theorem find?_eq (tree : FileTree) (path : Path) :
    find? tree path =
      if tree.pathExists (path.join ⟨fileName⟩) then some (path.join ⟨fileName⟩)
      else if tree.pathExists (path.join ⟨".git"⟩) then none
      else path.parent?.bind (find? tree) := by
  rw [find?, findWithin]
  cases above : path.parent? with
  | none => rfl
  | some parent =>
      simp only [findWithin_enough tree (Path.parent?_length above)]
      rfl

/-- A path without double dots that leads down to `place` in a tree without links, with room
for the name of a configuration file behind it. -/
structure Leads (tree : FileTree) (path : Path) (place : Location) : Prop where
  linkless : tree.Linkless
  settled : path.isAbsolute = false → tree.removedLevels = 0
  inside : tree.entryAt? place = some .directory
  reached : tree.follow (tree.origin path) path.pieces = .ok place
  downward : ".." ∉ path.pieces
  legible : '\x00' ∉ path.text.toList
  room : (path.join ⟨fileName⟩).text.utf8ByteSize ≤ Path.lengthLimit

/-- A name that is looked for in every directory of a search. -/
structure Sought (name : String) : Prop extends Path.IsName name where
  legible : '\x00' ∉ name.toList
  short : name = fileName ∨ name.utf8ByteSize < fileName.utf8ByteSize

theorem sought_fileName : Sought fileName where
  nonempty := by decide
  notHere := by decide
  notUp := by decide
  plain := by decide
  legible := by decide
  short := .inl rfl

theorem sought_repository : Sought ".git" where
  nonempty := by decide
  notHere := by decide
  notUp := by decide
  plain := by decide
  legible := by decide
  short := .inr (by decide)

section

variable {tree : FileTree} {place : Location} {path : Path}

theorem Leads.spelled (leads : Leads tree path place) {name : String} (sought : Sought name) :
    (path.join ⟨name⟩).spellingFault? = none := by
  have relative := sought.toIsName.relative
  have lower := (path.size_join sought_fileName.toIsName.relative).1
  have upper := (path.size_join relative).2
  have legible : '\x00' ∉ (path.join ⟨name⟩).text.toList := by
    intro member
    rcases path.mem_join relative member with inPath | slash | inName
    · exact leads.legible inPath
    · exact absurd slash (by decide)
    · exact sought.legible inName
  have bound : (path.join ⟨name⟩).text.utf8ByteSize ≤ Path.lengthLimit := by
    rcases sought.short with rfl | shorter
    · exact leads.room
    · have room := leads.room
      simp only at lower upper
      omega
  rw [Path.spellingFault?, if_neg (by simpa using legible), if_neg (Nat.not_lt.mpr bound)]

theorem Leads.resolve_join (leads : Leads tree path place) {name : String}
    (sought : Sought name) :
    tree.resolve (path.join ⟨name⟩) = .ok (some (place ++ [name])) := by
  have relative := sought.toIsName.relative
  have absolute := path.isAbsolute_join relative
  have some : (path.join ⟨name⟩).text ≠ "" := by
    intro empty
    have lower := (path.size_join relative).1
    rw [empty, String.utf8ByteSize_empty] at lower
    have none : name.utf8ByteSize = 0 := by
      simp only at lower
      omega
    exact sought.nonempty (String.utf8ByteSize_eq_zero_iff.mp none)
  have size : name.utf8ByteSize ≤ Path.nameLimit := by
    have known : fileName.utf8ByteSize ≤ Path.nameLimit := by decide
    rcases sought.short with rfl | shorter
    · exact known
    · omega
  have settled : (path.join ⟨name⟩).isAbsolute = false → tree.removedLevels = 0 := by
    rw [absolute]
    exact leads.settled
  rw [FileTree.resolve_eq_follow (leads.spelled sought) some settled, FileTree.origin, absolute,
    ← FileTree.origin, path.pieces_join relative,
    FileTree.follow_of_append leads.linkless (FileTree.follow_stem leads.linkless leads.reached),
    Path.pieces_of_not_mem sought.plain, leads.linkless.follow_cons,
    FileTree.step_name leads.inside sought.toIsName size]
  rfl

theorem Leads.pathExists_iff (leads : Leads tree path place) {name : String}
    (sought : Sought name) : tree.pathExists (path.join ⟨name⟩) = true ↔ tree.Holds place name := by
  rw [FileTree.pathExists_of_resolve leads.linkless (leads.resolve_join sought), FileTree.Holds]

theorem Leads.parent (leads : Leads tree path place) {parent : Path}
    (above : path.parent? = some parent) :
    tree.origin parent = tree.origin path ∧ ∃ upper, Leads tree parent upper ∧
      (place = upper ∨ ∃ name, place = upper ++ [name]) := by
  obtain ⟨absolute, -⟩ := Path.parent?_split above
  obtain ⟨rest, more, split⟩ := Path.parent?_begins above
  obtain ⟨upper, inside, reached, moved⟩ :=
    FileTree.follow_parent leads.linkless above leads.downward leads.reached
  have origin : tree.origin parent = tree.origin path := by
    rw [FileTree.origin, FileTree.origin, absolute]
  refine ⟨origin, upper, ?_, moved⟩
  constructor
  · exact leads.linkless
  · rw [absolute]
    exact leads.settled
  · exact inside
  · rw [origin]
    exact reached
  · exact mt (Path.up_of_parent above) leads.downward
  · intro nul
    apply leads.legible
    rw [split, String.toList_append]
    exact List.mem_append_left _ nul
  · have room := leads.room
    have lower := (path.size_join sought_fileName.toIsName.relative).1
    have upper := (parent.size_join sought_fileName.toIsName.relative).2
    have positive : 0 < rest.utf8ByteSize := by
      rw [Nat.pos_iff_ne_zero]
      exact fun empty => more (String.utf8ByteSize_eq_zero_iff.mp empty)
    rw [split, String.utf8ByteSize_append] at lower
    omega

/-- Where the search ends, the path leads no further down than its origin. -/
theorem Leads.top (leads : Leads tree path place) (top : path.parent? = none) :
    place = tree.origin path := by
  have stays := FileTree.follow_moves leads.linkless leads.reached
  rw [Path.laterComponents_idle (Path.idle_of_parent?_eq_none top)] at stays
  exact stays

theorem Leads.below_origin (leads : Leads tree path place) : tree.origin path <+: place :=
  FileTree.follow_downward leads.linkless leads.downward leads.reached

/-- The search gives the right answer, by induction on the length of the path. -/
theorem Leads.answers (leads : Leads tree path place) :
    Answers tree (tree.origin path) place (find? tree path) := by
  induction size : path.text.length using Nat.strongRecOn generalizing path place with
  | ind size ih =>
      rw [find?_eq]
      have configured := leads.pathExists_iff sought_fileName
      have repository := leads.pathExists_iff sought_repository
      by_cases holds : tree.Holds place fileName
      · rw [if_pos (configured.mpr holds)]
        exact ⟨place, leads.below_origin, governs_self holds, leads.resolve_join sought_fileName⟩
      · rw [if_neg (mt configured.mp holds)]
        by_cases stops : tree.Holds place ".git"
        · rw [if_pos (repository.mpr stops)]
          intro directory _
          exact not_governs_of_repository holds stops
        · rw [if_neg (mt repository.mp stops)]
          cases above : path.parent? with
          | none =>
              intro directory within governs
              -- Nothing lies between the place and the origin, so the place itself would govern.
              obtain rfl : place = directory :=
                (leads.top above ▸ within).eq_of_length_le governs.above.length_le
              exact holds governs.configured
          | some parent =>
              obtain ⟨origin, upper, leadsAbove, moved⟩ := leads.parent above
              have shorter := Path.parent?_length above
              have right := ih _ (by omega) leadsAbove rfl
              rw [origin] at right
              rcases moved with rfl | ⟨name, rfl⟩
              · exact right
              · exact right.below holds stops

theorem leads_of_lookup (linkless : tree.Linkless)
    (found : tree.lookup path = .ok (.directory place)) (downward : ".." ∉ path.pieces)
    (room : (path.join ⟨fileName⟩).text.utf8ByteSize ≤ Path.lengthLimit) :
    Leads tree path place := by
  obtain ⟨resolved, inside⟩ := FileTree.resolve_of_directory found
  obtain ⟨start, pieces, begun, reached⟩ := FileTree.resolve_eq_some_iff.mp resolved
  obtain ⟨-, spelled, split⟩ := FileTree.departure_eq_some_iff.mp begun
  have legible : '\x00' ∉ path.text.toList := by
    intro nul
    simp [Path.spellingFault?, nul] at spelled
  rcases split with ⟨absolute, rfl, rfl⟩ | ⟨relative, rfl, left⟩
  · refine ⟨linkless, ?_, inside, ?_, downward, legible, room⟩
    · rw [absolute]
      exact fun never => nomatch never
    · rw [FileTree.origin, if_pos absolute]
      exact reached
  · obtain ⟨settled, rfl⟩ := FileTree.leaveRemoved_downward downward left
    refine ⟨linkless, fun _ => settled, inside, ?_, downward, legible, room⟩
    rw [FileTree.origin, if_neg (by simp [relative])]
    exact reached

end

/-- In a tree without links, the search from a directory given without double dots finds the
file of the nearest directory that has one, at or above the start and below a repository on
the way. Above the working directory it looks only if the path is absolute. -/
theorem find?_nearest (tree : FileTree) (path : Path) (start : Location)
    (linkless : tree.Linkless) (found : tree.lookup path = .ok (.directory start))
    (downward : ".." ∉ path.pieces)
    (room : (path.join ⟨fileName⟩).text.utf8ByteSize ≤ Path.lengthLimit) :
    ((find? tree path).isSome ↔
      ∃ directory, tree.origin path <+: directory ∧ Governs tree start directory) ∧
    ∀ file, find? tree path = some file → ∃ directory, tree.origin path <+: directory ∧
      Governs tree start directory ∧
      tree.resolve file = .ok (some (directory ++ [fileName])) := by
  have right := (leads_of_lookup linkless found downward room).answers
  cases answer : find? tree path with
  | none =>
      rw [answer] at right
      refine ⟨⟨fun never => (nomatch never), ?_⟩, fun file never => nomatch never⟩
      rintro ⟨directory, within, governs⟩
      exact absurd governs (right directory within)
  | some file =>
      rw [answer] at right
      obtain ⟨directory, within, governs, resolved⟩ := right
      refine ⟨⟨fun _ => ⟨directory, within, governs⟩, fun _ => rfl⟩, ?_⟩
      intro other same
      obtain rfl := Option.some.inj same
      exact ⟨directory, within, governs, resolved⟩

/-- A directory with a configuration file in it and a directory below. -/
def nested (workingDirectory : Location) : FileTree where
  entries := [(["w"], .directory), (["w", fileName], .file .empty), (["w", "sub"], .directory)]
  workingDirectory := workingDirectory

theorem find?_nearest_from_dotted_path :
    (nested ["w"]).lookup ⟨"./sub//."⟩ = .ok (.directory ["w", "sub"]) ∧
      ∃ directory, ["w"] <+: directory ∧ Governs (nested ["w"]) ["w", "sub"] directory ∧
        (nested ["w"]).resolve ⟨"./.comscanrc.json"⟩ = .ok (some (directory ++ [fileName])) := by
  have found : (nested ["w"]).lookup ⟨"./sub//."⟩ = .ok (.directory ["w", "sub"]) := rfl
  have downward : ".." ∉ (Path.mk "./sub//.").pieces := by decide +kernel
  have room : (Path.join ⟨"./sub//."⟩ ⟨fileName⟩).text.utf8ByteSize ≤ Path.lengthLimit := by
    decide +kernel
  have answer : find? (nested ["w"]) ⟨"./sub//."⟩ = some ⟨"./.comscanrc.json"⟩ := by
    decide +kernel
  exact ⟨found, (find?_nearest _ _ _ (by decide) found downward room).2 _ answer⟩

/-- From a dot in the directory below, the same configuration is not found. -/
theorem find?_misses_parent :
    (nested ["w", "sub"]).lookup Path.here = .ok (.directory ["w", "sub"]) ∧
      Governs (nested ["w", "sub"]) ["w", "sub"] ["w"] ∧
      find? (nested ["w", "sub"]) Path.here = none := by
  have plain : ¬(nested ["w", "sub"]).Holds (["w"] ++ ["sub"]) fileName := by decide +kernel
  have free : ¬(nested ["w", "sub"]).Holds (["w"] ++ ["sub"]) ".git" := by decide +kernel
  have configured : (nested ["w", "sub"]).Holds ["w"] fileName := by decide +kernel
  exact ⟨rfl, (governs_above plain free).mpr (governs_self configured), by decide +kernel⟩

end Config

end SourceComments
