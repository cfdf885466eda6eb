import SourceComments.Proofs.Glob
import SourceComments.Proofs.Walk

/-! The pieces of the paths that patterns name.

A pattern whose stages are names, or match nothing but names, spells every path it finds in
one way: the base as the pattern comes to know it, and proper names behind. Stages that
match the dot entries of a directory would bring in other spellings of the same places. -/

namespace SourceComments

/-- The path has these pieces with proper names behind them. -/
def Path.Continues (path : Path) (front : List String) : Prop :=
  ∃ names : List String, (∀ name ∈ names, Path.IsName name) ∧ path.stem = front ++ names

theorem Path.Continues.descend {path : Path} {front names : List String}
    (continued : path.Continues front) (proper : ∀ name ∈ names, Path.IsName name) :
    (path.descend names).Continues front := by
  obtain ⟨earlier, properEarlier, spelled⟩ := continued
  refine ⟨earlier ++ names, List.forall_mem_append.mpr ⟨properEarlier, proper⟩, ?_⟩
  rw [Path.stem_descend path proper, spelled, List.append_assoc]

namespace Glob

/-- The pieces that a pattern spells out of a path: none for the current directory. -/
def spelling (path : Path) : List String := if isHere path then [] else path.stem

/-- The stage leads to entries under their names only. -/
def Stage.Naming : Stage → Prop
  | .plain text => Path.IsName text
  | .names tokens => dotNames tokens = []
  | .directories => True

theorem stem_extend (path : Path) {text : String} (name : Path.IsName text) :
    (extend path text).stem = spelling path ++ [text] := by
  rw [extend, spelling]
  split
  · exact name.stem
  · rw [Path.stem_join path name.relative, name.stem]

/-- The path is spelled out, and has names behind the front. -/
structure NamedFrom (front : List String) (path : Path) : Prop where
  spelled : spelling path = path.stem
  continues : path.Continues front

theorem namedFrom_extendAll (path : Path) {names : List String} (some : names ≠ [])
    (proper : ∀ name ∈ names, Path.IsName name) :
    NamedFrom (spelling path) (extendAll path names) where
  spelled := by
    have more : trail (extendAll path names) ≠ [] := by
      simp [trail_extendAll path some proper, some]
    rw [spelling, if_neg]
    rw [isHere_iff]
    exact (components_of_trail more).2
  continues := by
    cases names with
    | nil => exact absurd rfl some
    | cons name names =>
        have here := proper name List.mem_cons_self
        have first : (extend path name).Continues (spelling path) :=
          ⟨[name], List.forall_mem_singleton.mpr here, stem_extend path here⟩
        exact first.descend fun other member => proper other (List.mem_cons_of_mem name member)

theorem NamedFrom.trans {front : List String} {path next : Path} (first : NamedFrom front path)
    (second : NamedFrom (spelling path) next) : NamedFrom front next where
  spelled := second.spelled
  continues := by
    obtain ⟨names, proper, begins⟩ := first.continues
    obtain ⟨more, further, ends⟩ := second.continues
    refine ⟨names ++ more, List.forall_mem_append.mpr ⟨proper, further⟩, ?_⟩
    rw [ends, first.spelled, begins, List.append_assoc]

/-- A stage of names adds at least one. -/
theorem Moves.namedFrom {tree : FileTree} (named : tree.Named) {stage : Stage} {path next : Path}
    (moved : Moves tree stage path next) (naming : stage.Naming) :
    NamedFrom (spelling path) next := by
  cases moved with
  | plain =>
      rw [← extendAll_single]
      exact namedFrom_extendAll path (List.cons_ne_nil _ _) (List.forall_mem_singleton.mpr naming)
  | child present =>
      rw [← extendAll_single]
      exact namedFrom_extendAll path (List.cons_ne_nil _ _)
        (List.forall_mem_singleton.mpr (mem_children named present))
  | @dot tokens path name listed =>
      rw [show dotNames tokens = [] from naming] at listed
      cases listed
  | deep present =>
      obtain ⟨some, proper⟩ := mem_belowPath named present
      exact namedFrom_extendAll path some proper

/-- Following the stages from the path first spells the front out, and then adds names. -/
def Staged (front : List String) (path : Path) (stages : List Stage) : Prop :=
  ∃ (texts : List String) (later : List Stage), stages = texts.map .plain ++ later ∧
    spelling (texts.foldl extend path) = front ∧ later ≠ [] ∧ ∀ stage ∈ later, stage.Naming

theorem expandFrom_namedFrom {tree : FileTree} (named : tree.Named) {front : List String}
    {path found : Path} {stages : List Stage} (staged : Staged front path stages)
    (member : found ∈ expandFrom tree stages path) : NamedFrom front found := by
  obtain ⟨texts, later, rfl, rfl, some, naming⟩ := staged
  -- Before its first name the path may still be the current directory, so the invariant
  -- holds from the first move on.
  obtain ⟨stage, rest, rfl⟩ := List.exists_cons_of_ne_nil some
  obtain ⟨next, later, moved, ends, onward⟩ := mem_expandFrom_cons (mem_expandFrom_plain member)
  apply expandFrom_induct onward (moved.namedFrom named (naming stage List.mem_cons_self))
  intro other inside between further moved spelled
  have names := naming other (List.mem_cons_of_mem stage (ends.subset inside))
  exact spelled.trans (moved.namedFrom named names)

end Glob

end SourceComments
