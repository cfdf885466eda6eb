import SourceComments.Proofs.Discovery

/-! The search along the path as it is spelled.

Each shorter path has one component less, so every path has a finite chain of directories
above it, and only a root or an empty path ends it. The search goes along this chain: it takes
the first directory with a configuration file, unless one before it has a repository. -/

namespace SourceComments

namespace Path

theorem laterComponents_single {piece : String} (nonempty : piece ≠ "") (dotless : piece ≠ ".") :
    ∃ component, laterComponents [piece] = [component] := by
  rw [laterComponents, if_neg (not_or.mpr ⟨nonempty, dotless⟩)]
  split
  · exact ⟨.up, rfl⟩
  · exact ⟨.name piece, rfl⟩

theorem eq_empty_of_stem {path : Path} (none : path.stem = []) : path = ⟨""⟩ := by
  by_contra some
  exact stem_ne_nil (fun empty => some (congrArg mk empty)) none

/-- The parent has all components but the last. -/
theorem parent?_components {path parent : Path} (above : path.parent? = some parent) :
    ∃ last, path.components = parent.components ++ [last] := by
  obtain ⟨absolute, gap, last, after, whole, idle, kept, alone, dotless⟩ := parent?_split above
  have inGap : laterComponents gap = [] :=
    laterComponents_idle fun piece member => idle piece (List.mem_append_left after member)
  have behind : laterComponents after = [] :=
    laterComponents_idle fun piece member => idle piece (List.mem_append_right gap member)
  have later : laterComponents path.pieces =
      laterComponents parent.pieces ++ laterComponents [last] := by
    rw [whole, laterComponents_append, laterComponents_append, laterComponents_stem, inGap,
      ← List.singleton_append, laterComponents_append, behind, List.append_nil, List.append_nil]
  rw [components_eq, components_eq, later]
  by_cases dot : last = "."
  · -- A dot is a component only where it starts the path, and nothing stands above it.
    obtain ⟨noStem, rfl⟩ := List.append_eq_nil_iff.mp (alone dot)
    subst dot
    obtain rfl := eq_empty_of_stem noStem
    have starts : path.pieces.head? = some "." := by
      rw [whole, noStem]
      rfl
    refine ⟨.here, ?_⟩
    rw [lead, ← absolute, starts]
    rfl
  · obtain ⟨component, single⟩ := laterComponents_single kept dot
    have starts : path.pieces.head? = some "." ↔ parent.pieces.head? = some "." := by
      by_cases none : parent.stem = []
      · obtain rfl := eq_empty_of_stem none
        have outside : path.pieces.head? ≠ some "." := by
          rw [whole, none, List.nil_append]
          cases gap with
          | nil => simpa using dot
          | cons first gap => exact dotless none
        exact iff_of_false outside (by decide)
      · have nonempty : parent.text ≠ "" := fun empty => none (congrArg (stem ∘ mk) empty)
        rw [← stem_head? nonempty, whole, List.append_assoc, List.head?_append_of_ne_nil _ none]
    have leads : path.lead = parent.lead := by simp only [lead, absolute, starts]
    exact ⟨component, by rw [single, leads, List.append_assoc]⟩

theorem components_of_parent?_eq_none {path : Path} (top : path.parent? = none) :
    path.components = if path.isAbsolute then [.root] else [] := by
  have dotless := getLast?_of_trimEnd (trimEnd_of_parent?_eq_none top)
  rw [List.getLast?_reverse] at dotless
  rw [components_eq, laterComponents_idle (idle_of_parent?_eq_none top), List.append_nil, lead,
    if_neg dotless]

/-- A path and the ones above it, up to one that cannot be shortened. -/
inductive Ascent : Path → List Path → Prop where
  | top {path : Path} (top : path.parent? = none) : Ascent path [path]
  | above {path parent : Path} {chain : List Path} (above : path.parent? = some parent)
      (rest : Ascent parent chain) : Ascent path (path :: chain)

/-- Every path has an ascent, by induction on the number of its components. -/
theorem ascent_exists (path : Path) : ∃ chain, Ascent path chain := by
  induction size : path.components.length using Nat.strongRecOn generalizing path with
  | ind count ih =>
      cases above : path.parent? with
      | none => exact ⟨_, .top above⟩
      | some parent =>
          obtain ⟨last, longer⟩ := parent?_components above
          have shorter : parent.components.length < count := by simp [← size, longer]
          obtain ⟨chain, ascent⟩ := ih _ shorter parent rfl
          exact ⟨_, .above above ascent⟩

theorem Ascent.unique {path : Path} {left right : List Path} (ascent : Ascent path left)
    (other : Ascent path right) : left = right := by
  induction ascent generalizing right with
  | top top =>
      cases other with
      | top => rfl
      | above above => simp [top] at above
  | above above _ ih =>
      cases other with
      | top top => simp [top] at above
      | above aboveToo rest =>
          obtain rfl := Option.some.inj (above.symm.trans aboveToo)
          rw [ih rest]

/-- The empty path stands above every relative one. -/
theorem Ascent.length_eq {path : Path} {chain : List Path} (ascent : Ascent path chain) :
    chain.length = path.components.length + if path.isAbsolute then 0 else 1 := by
  induction ascent with
  | @top path top =>
      rw [components_of_parent?_eq_none top]
      split <;> rfl
  | @above path parent chain above _ ih =>
      obtain ⟨last, longer⟩ := parent?_components above
      rw [List.length_cons, ih, longer, List.length_append, (parent?_split above).1]
      exact Nat.add_right_comm _ _ _

end Path

namespace Config

def Configured (tree : FileTree) (directory : Path) : Prop :=
  tree.pathExists (directory.join ⟨fileName⟩) = true

def HasRepository (tree : FileTree) (directory : Path) : Prop :=
  tree.pathExists (directory.join ⟨".git"⟩) = true

/-- The directory is the first of the chain with a configuration file, and none before it has
a repository. -/
structure FirstMet (tree : FileTree) (chain : List Path) (index : Nat) (directory : Path) :
    Prop where
  place : chain[index]? = some directory
  configured : Configured tree directory
  before : ∀ earlier < index, ∀ other, chain[earlier]? = some other →
    ¬Configured tree other ∧ ¬HasRepository tree other

section

variable {tree : FileTree} {path directory : Path} {chain : List Path}

theorem firstMet_zero : FirstMet tree (path :: chain) 0 directory ↔
    path = directory ∧ Configured tree path := by
  constructor
  · intro met
    obtain rfl : path = directory := by simpa using met.place
    exact ⟨rfl, met.configured⟩
  · rintro ⟨rfl, configured⟩
    exact ⟨rfl, configured, fun earlier never => absurd never (Nat.not_lt_zero _)⟩

theorem firstMet_succ {index : Nat} : FirstMet tree (path :: chain) (index + 1) directory ↔
    (¬Configured tree path ∧ ¬HasRepository tree path) ∧ FirstMet tree chain index directory := by
  constructor
  · intro met
    refine ⟨met.before 0 (Nat.succ_pos _) path rfl, met.place, met.configured, ?_⟩
    intro earlier less other found
    exact met.before (earlier + 1) (Nat.succ_lt_succ less) other found
  · rintro ⟨passed, met⟩
    refine ⟨met.place, met.configured, ?_⟩
    intro earlier less other found
    cases earlier with
    | zero =>
        obtain rfl : path = other := by simpa using found
        exact passed
    | succ earlier => exact met.before earlier (Nat.lt_of_succ_lt_succ less) other found

/-- The answer is the file of the directory first met, if there is one. -/
def AnswersAlong (tree : FileTree) (chain : List Path) (answer : Option Path) : Prop :=
  ∀ file, answer = some file ↔
    ∃ index directory, FirstMet tree chain index directory ∧ file = directory.join ⟨fileName⟩

theorem answersAlong_nil : AnswersAlong tree [] none := by
  intro file
  refine iff_of_false nofun ?_
  rintro ⟨index, directory, met, -⟩
  simpa using met.place

/-- One round: the file is looked for first, then the repository, and then the directories
above. -/
theorem answersAlong_cons {answer : Option Path} (right : AnswersAlong tree chain answer) :
    AnswersAlong tree (path :: chain)
      (if tree.pathExists (path.join ⟨fileName⟩) then some (path.join ⟨fileName⟩)
      else if tree.pathExists (path.join ⟨".git"⟩) then none else answer) := by
  intro file
  rw [← Nat.or_exists_add_one]
  simp only [firstMet_zero, firstMet_succ, Configured, HasRepository]
  by_cases configured : tree.pathExists (path.join ⟨fileName⟩) = true
  · simpa [configured] using eq_comm
  · by_cases repository : tree.pathExists (path.join ⟨".git"⟩) = true
    · simp [configured, repository]
    · simpa [configured, repository] using right file

/-- The search answers for the whole chain, by induction along it. -/
theorem find?_answersAlong (ascent : Path.Ascent path chain) :
    AnswersAlong tree chain (find? tree path) := by
  induction ascent with
  | top top =>
      rw [find?_eq, top]
      exact answersAlong_cons answersAlong_nil
  | above above _ ih =>
      rw [find?_eq, above]
      exact answersAlong_cons ih

/-- One round for each directory of the chain is enough. -/
theorem findWithin_ascent (ascent : Path.Ascent path chain) {rounds : Nat}
    (enough : chain.length ≤ rounds) : findWithin tree rounds path = find? tree path := by
  induction ascent generalizing rounds with
  | top top =>
      obtain ⟨rounds, rfl⟩ := Nat.exists_eq_add_one.mpr enough
      rw [find?_eq, findWithin, top]
      rfl
  | above above _ ih =>
      rw [List.length_cons] at enough
      obtain ⟨rounds, rfl⟩ := Nat.exists_eq_add_one.mpr (Nat.zero_lt_of_lt enough)
      rw [find?_eq, findWithin, above]
      simp only [ih (Nat.le_of_succ_le_succ enough)]
      rfl

theorem AnswersAlong.eq_none_iff {answer : Option Path} (right : AnswersAlong tree chain answer) :
    answer = none ↔ ∀ index directory, ¬FirstMet tree chain index directory := by
  rw [Option.eq_none_iff_forall_ne_some]
  constructor
  · intro never index directory met
    exact never _ ((right _).mpr ⟨index, directory, met, rfl⟩)
  · intro never file found
    obtain ⟨index, directory, met, -⟩ := (right file).mp found
    exact never index directory met

/-- Nothing is met above a repository. -/
theorem FirstMet.le_of_repository {index other : Nat} {outer : Path}
    (met : FirstMet tree chain index directory) (found : chain[other]? = some outer)
    (repository : HasRepository tree outer) : index ≤ other := by
  by_contra above
  exact (met.before other (Nat.lt_of_not_le above) outer found).2 repository

end

/-- The directories above a start, as it is spelled, are a finite chain, and the search looks at
each of them once at most. It finds the file of the first directory that has one, unless a
directory before that has a repository. So a repository beside the file does not hide it, and
one below hides every file above. -/
theorem find?_along_ascent (tree : FileTree) (start : Path) :
    ∃ chain : List Path, (∀ other, Path.Ascent start other ↔ other = chain) ∧
      (chain.length = start.components.length + if start.isAbsolute then 0 else 1) ∧
      (∀ rounds, chain.length ≤ rounds → findWithin tree rounds start = find? tree start) ∧
      (∀ file, find? tree start = some file ↔ ∃ index directory,
        FirstMet tree chain index directory ∧ file = directory.join ⟨fileName⟩) ∧
      (find? tree start = none ↔ ∀ index directory, ¬FirstMet tree chain index directory) ∧
      (∀ index directory, FirstMet tree chain index directory → HasRepository tree directory →
        find? tree start = some (directory.join ⟨fileName⟩)) ∧
      ∀ (index : Nat) directory, chain[index]? = some directory → HasRepository tree directory →
        (∀ earlier ≤ index, ∀ other, chain[earlier]? = some other → ¬Configured tree other) →
        find? tree start = none := by
  obtain ⟨chain, ascent⟩ := start.ascent_exists
  have right : AnswersAlong tree chain (find? tree start) := find?_answersAlong ascent
  refine ⟨chain, fun other => ⟨fun same => same.unique ascent, fun same => same ▸ ascent⟩,
    ascent.length_eq, fun rounds => findWithin_ascent ascent, right, right.eq_none_iff, ?_, ?_⟩
  · intro index directory met _
    exact (right _).mpr ⟨index, directory, met, rfl⟩
  · intro index directory found repository plain
    rw [right.eq_none_iff]
    intro other outer met
    exact plain other (met.le_of_repository found repository) outer met.place met.configured

end Config

end SourceComments
