import Mathlib.Data.List.TakeWhile

/-! Regular expressions with an order of preference.

A pattern may match the beginning of a text in several ways, listed from the most
preferred to the least: alternatives in the order they are written, a greedy
repetition with one more round first, a lazy one with the stop first. A search
takes the most preferred way at the leftmost place that has one and goes on behind
it, so that matches never overlap. -/

namespace SourceComments

inductive Pattern where
  | one (accepts : Char → Bool)
  | lineEnd
  | seq (first next : Pattern)
  | alt (first other : Pattern)
  | greedy (inner : Pattern)
  | lazy (inner : Pattern)
  | group (name : String) (inner : Pattern)

namespace Pattern

/-- What a named group matched, and the characters of the match in front of it. -/
structure Capture where
  name : String
  before : List Char
  body : List Char
  deriving DecidableEq, Repr

/-- One way to match: the characters taken and the groups among them. -/
structure Way where
  taken : List Char
  groups : List Capture := []
  deriving DecidableEq, Repr

namespace Way

def stop : Way := ⟨[], []⟩

def andThen (first next : Way) : Way where
  taken := first.taken ++ next.taken
  groups := first.groups ++ next.groups.map fun capture =>
    { capture with before := first.taken ++ capture.before }

def named (name : String) (way : Way) : Way :=
  ⟨way.taken, ⟨name, [], way.taken⟩ :: way.groups⟩

def group? (way : Way) (name : String) : Option Capture := way.groups.find? (·.name = name)

@[simp] theorem andThen_taken (first next : Way) :
    (first.andThen next).taken = first.taken ++ next.taken := rfl

@[simp] theorem named_taken (name : String) (way : Way) : (way.named name).taken = way.taken := rfl

end Way

/-- The ways to continue a first part, each by the ways of the next in the text behind it. -/
def continued (firsts : List Way) (next : List Char → List Way) (text : List Char) : List Way :=
  firsts.flatMap fun way => (next (text.drop way.taken.length)).map way.andThen

/-- Zero or more rounds. A round that takes nothing is not counted, so there are
never more of them than characters. -/
def repeats (eager : Bool) (round : List Char → List Way) : Nat → List Char → List Way
  | 0, _ => [.stop]
  | rounds + 1, text =>
      let more := continued ((round text).filter (·.taken ≠ [])) (repeats eager round rounds) text
      if eager then more ++ [.stop] else .stop :: more

/-- Every way the pattern matches the beginning of the text, the most preferred first. -/
def ways : Pattern → List Char → List Way
  | one _, [] => []
  | one accepts, char :: _ => if accepts char then [⟨[char], []⟩] else []
  | lineEnd, text => if text = [] ∨ text.head? = some '\n' then [.stop] else []
  | seq first next, text => continued (first.ways text) next.ways text
  | alt first other, text => first.ways text ++ other.ways text
  | greedy inner, text => repeats true inner.ways text.length text
  | lazy inner, text => repeats false inner.ways text.length text
  | group name inner, text => (inner.ways text).map (Way.named name)

/-- The matches in a text, each with the characters in front of it. The first
`pending` characters belong to a match already found. -/
def matchesFrom (pattern : Pattern) : Nat → List Char → List Char → List (List Char × Way)
  | _, _, [] => []
  | pending + 1, before, char :: rest => matchesFrom pattern pending (before ++ [char]) rest
  | 0, before, char :: rest =>
      match (pattern.ways (char :: rest)).head? with
      | none => matchesFrom pattern 0 (before ++ [char]) rest
      | some way =>
          (before, way) :: matchesFrom pattern (way.taken.length - 1) (before ++ [char]) rest

theorem matchesFrom_append (pattern : Pattern) (before taken rest : List Char) :
    matchesFrom pattern taken.length before (taken ++ rest) =
      matchesFrom pattern 0 (before ++ taken) rest := by
  induction taken generalizing before with
  | nil => simp
  | cons char taken ih =>
      rw [List.length_cons, List.cons_append, matchesFrom, ih, List.append_assoc]
      rfl

theorem matchesFrom_miss {pattern : Pattern} {char : Char} {rest : List Char}
    (miss : (pattern.ways (char :: rest)).head? = none) (before : List Char) :
    matchesFrom pattern 0 before (char :: rest) =
      matchesFrom pattern 0 (before ++ [char]) rest := by
  rw [matchesFrom, miss]

theorem matchesFrom_hit {pattern : Pattern} {way : Way} {rest : List Char}
    (hit : (pattern.ways (way.taken ++ rest)).head? = some way) (progress : way.taken ≠ [])
    (before : List Char) :
    matchesFrom pattern 0 before (way.taken ++ rest) =
      (before, way) :: matchesFrom pattern 0 (before ++ way.taken) rest := by
  cases split : way.taken with
  | nil => exact absurd split progress
  | cons char taken =>
      rw [split, List.cons_append] at hit
      rw [List.cons_append, matchesFrom, hit]
      dsimp only
      rw [split, List.length_cons, Nat.add_sub_cancel, matchesFrom_append, List.append_assoc]
      rfl

/-- What a run of accepted characters may take, the longest first. -/
def runs (accepts : Char → Bool) : List Char → List (List Char)
  | [] => [[]]
  | char :: rest => if accepts char then (runs accepts rest).map (char :: ·) ++ [[]] else [[]]

/-- One round over a character, and what may follow it. -/
theorem repeats_one (eager : Bool) (accepts : Char → Bool) (char : Char) (rest : List Char) :
    repeats eager (one accepts).ways (char :: rest).length (char :: rest) =
      let more := if accepts char then
        (repeats eager (one accepts).ways rest.length rest).map (Way.andThen ⟨[char], []⟩) else []
      if eager then more ++ [.stop] else .stop :: more := by
  rw [List.length_cons, repeats, ways]
  by_cases accepted : accepts char
  · have counted : [Way.mk [char] []].filter (·.taken ≠ []) = [Way.mk [char] []] := rfl
    simp only [accepted, if_true, counted, continued, List.flatMap_cons, List.flatMap_nil,
      List.append_nil, List.length_cons, List.length_nil, List.drop_succ_cons, List.drop_zero]
  · simp [accepted, continued]

theorem ways_greedy_one (accepts : Char → Bool) (text : List Char) :
    (greedy (one accepts)).ways text = (runs accepts text).map fun run => ⟨run, []⟩ := by
  induction text with
  | nil => rfl
  | cons char rest ih =>
      rw [ways] at ih ⊢
      rw [repeats_one, ih, runs]
      by_cases accepted : accepts char
      · simp [accepted, Way.andThen, Way.stop]
      · simp [accepted, Way.stop]

theorem ways_lazy_one (accepts : Char → Bool) (char : Char) (rest : List Char) :
    (lazy (one accepts)).ways (char :: rest) =
      .stop :: if accepts char then
        ((lazy (one accepts)).ways rest).map (Way.andThen ⟨[char], []⟩) else [] := by
  rw [ways, ways, repeats_one]
  rfl

/-- What cannot begin with an accepted character follows the longest run only. -/
theorem runs_flatMap {β : Type} (accepts : Char → Bool) (text : List Char)
    (next : List Char → List Char → List β)
    (fails : ∀ run char rest, accepts char = true → next run (char :: rest) = []) :
    (runs accepts text).flatMap (fun run => next run (text.drop run.length)) =
      next (text.takeWhile accepts) (text.dropWhile accepts) := by
  induction text generalizing next with
  | nil => simp [runs]
  | cons char rest ih =>
      rw [runs]
      by_cases accepted : accepts char
      · have longer := ih (fun run => next (char :: run))
          (fun run other later accepts => fails (char :: run) other later accepts)
        simp only [accepted, if_true, List.flatMap_append, List.flatMap_map, List.length_cons,
          List.drop_succ_cons, longer]
        simp [accepted, fails [] char rest accepted]
      · simp [accepted]

end Pattern

end SourceComments
