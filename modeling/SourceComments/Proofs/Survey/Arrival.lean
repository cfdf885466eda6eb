import SourceComments.Proofs.Survey
import Mathlib.Data.List.Nodup
import Mathlib.Logic.Relation

/-! Results in the order of their arrival.

The files of a survey are read side by side, and any of them may be finished next. Whatever
the order, the results that have come in and those still to come are the same ones, and no
path is reported on twice. Sorting by path therefore has only one answer, and what a survey
finds does not depend on the order in which its files were finished. -/

namespace SourceComments

namespace Findings

/-- A sort by path has only one answer for the same items, where no path occurs twice. -/
theorem sorted_eq {α : Type} {path : α → String} {sort : List α → List α}
    (keeps : ∀ items, (sort items).Perm items)
    (ascends : ∀ items, (sort items).Pairwise fun left right => path left ≤ path right)
    {items others : List α} (perm : items.Perm others) (distinct : (items.map path).Nodup) :
    sort items = sort others := by
  have same : (sort items).Perm (sort others) :=
    ((keeps items).trans perm).trans (keeps others).symm
  refine List.Perm.eq_of_pairwise ?_ (ascends items) (ascends others) same
  intro left right member memberToo before after
  have samePath : path left = path right := le_antisymm before after
  have leftMember : left ∈ items := (keeps items).mem_iff.mp member
  have rightMember : right ∈ items := perm.mem_iff.mpr ((keeps others).mem_iff.mp memberToo)
  exact List.inj_on_of_nodup_map distinct leftMember rightMember samePath

/-- Among results on distinct paths, the order in which they are collected does not matter. -/
theorem collect_perm {results delivered : List (Except Issue FileComments)}
    (distinct : (results.map pathOf).Nodup) (perm : delivered.Perm results) :
    collect delivered = collect results := by
  have each := (paths_perm delivered).nodup_iff.mpr ((perm.map pathOf).nodup_iff.mpr distinct)
  obtain ⟨filesDistinct, issuesDistinct, -⟩ := List.nodup_append.mp each
  have files : sortFiles (filesOf delivered) = sortFiles (filesOf results) :=
    sorted_eq (fun _ => List.mergeSort_perm _ _) sortFiles_ascending (perm.filterMap _)
      filesDistinct
  have issues : Issue.sort (issuesOf delivered) = Issue.sort (issuesOf results) :=
    sorted_eq (fun _ => List.mergeSort_perm _ _) Issue.sort_ascending (perm.filterMap _)
      issuesDistinct
  rw [collect, collect, files, issues]

end Findings

namespace Survey

/-- What comes of one file. -/
def outcome (tree : FileTree) (language? : Option Language) (file : String × Language) :
    Except Issue FileComments :=
  extractFile tree file.1 (language?.getD file.2)

/-- Files being read: those not finished yet, and the results in the order of their arrival. -/
structure Progress where
  pending : List (String × Language)
  delivered : List (Except Issue FileComments)

/-- Any of the pending files may be the next to be finished. -/
inductive Completes (tree : FileTree) (language? : Option Language) : Progress → Progress → Prop
  | file (before after : List (String × Language)) (next : String × Language)
      (delivered : List (Except Issue FileComments)) :
      Completes tree language? ⟨before ++ next :: after, delivered⟩
        ⟨before ++ after, delivered ++ [outcome tree language? next]⟩

section

variable {tree : FileTree} {language? : Option Language}

/-- The results delivered and those still to come. -/
def Progress.outcomes (tree : FileTree) (language? : Option Language) (progress : Progress) :
    List (Except Issue FileComments) :=
  progress.delivered ++ progress.pending.map (outcome tree language?)

/-- Finishing a file only moves its result to those delivered. -/
theorem Completes.perm {earlier later : Progress} (step : Completes tree language? earlier later) :
    (later.outcomes tree language?).Perm (earlier.outcomes tree language?) := by
  cases step with
  | file before after next delivered =>
      simp only [Progress.outcomes, List.map_append, List.map_cons, List.append_assoc,
        List.singleton_append]
      exact List.perm_middle.symm.append_left delivered

theorem outcomes_perm {start state : Progress}
    (run : Relation.ReflTransGen (Completes tree language?) start state) :
    (state.outcomes tree language?).Perm (start.outcomes tree language?) := by
  induction run with
  | refl => exact .refl _
  | tail _ step ih => exact step.perm.trans ih

/-- Once no file is pending, every result has been delivered, in some order. -/
theorem delivered_perm {files : List (String × Language)}
    {delivered : List (Except Issue FileComments)}
    (run : Relation.ReflTransGen (Completes tree language?) ⟨files, []⟩ ⟨[], delivered⟩) :
    delivered.Perm (files.map (outcome tree language?)) := by
  have outcomes := outcomes_perm run
  simp only [Progress.outcomes, List.map_nil, List.append_nil, List.nil_append] at outcomes
  exact outcomes

end

/-- No two files of a survey are reported on under one path. -/
theorem results_distinct (tree : FileTree) (survey : Survey) (language? : Option Language) :
    ((results tree survey language?).map Findings.pathOf).Nodup := by
  rw [pathOf_results]
  exact survey.files.keys_nodup

/-- Results on distinct paths give the same findings in whatever order they are delivered. So a
survey finds the same in every order in which its files can be finished. -/
theorem extractAll_in_any_order :
    (∀ results delivered : List (Except Issue FileComments),
      (results.map Findings.pathOf).Nodup → delivered.Perm results →
        Findings.collect delivered = Findings.collect results) ∧
    ∀ (tree : FileTree) (survey : Survey) (language? : Option Language)
      (delivered : List (Except Issue FileComments)),
      Relation.ReflTransGen (Completes tree language?) ⟨survey.files.entries, []⟩
        ⟨[], delivered⟩ →
      Findings.collect delivered = (extractAll tree survey language?).1 := by
  refine ⟨fun _ _ => Findings.collect_perm, ?_⟩
  intro tree survey language? delivered run
  have distinct := results_distinct tree survey language?
  exact Findings.collect_perm distinct (delivered_perm run)

/-- The results may come in backwards, or the second file's before the third's and the first's. -/
theorem extractAll_in_any_order_in_workshop :
    Findings.collect (results workshop workshopSurvey none).reverse =
      Findings.collect (results workshop workshopSurvey none) ∧
    ∃ delivered, Relation.ReflTransGen (Completes workshop none)
        ⟨workshopSurvey.files.entries, []⟩ ⟨[], delivered⟩ ∧
      delivered ≠ results workshop workshopSurvey none ∧
      Findings.collect delivered = (extractAll workshop workshopSurvey none).1 := by
  have distinct : ((results workshop workshopSurvey none).map Findings.pathOf).Nodup := by
    decide +kernel
  refine ⟨extractAll_in_any_order.1 _ _ distinct (List.reverse_perm _), ?_⟩
  let first : String × Language := ("./a.c", .c)
  let second : String × Language := ("./b.js", .javaScript)
  let third : String × Language := ("./c.java", .java)
  have entries : workshopSurvey.files.entries = [first, second, third] := by decide +kernel
  have run : Relation.ReflTransGen (Completes workshop none) ⟨workshopSurvey.files.entries, []⟩
      ⟨[], [outcome workshop none second, outcome workshop none third,
        outcome workshop none first]⟩ := by
    rw [entries]
    have secondDone : Completes workshop none ⟨[first, second, third], []⟩
        ⟨[first, third], [outcome workshop none second]⟩ := .file [first] [third] second []
    have thirdDone : Completes workshop none ⟨[first, third], [outcome workshop none second]⟩
        ⟨[first], [outcome workshop none second, outcome workshop none third]⟩ :=
      .file [first] [] third _
    have firstDone : Completes workshop none
        ⟨[first], [outcome workshop none second, outcome workshop none third]⟩
        ⟨[], [outcome workshop none second, outcome workshop none third,
          outcome workshop none first]⟩ :=
      .file [] [] first _
    exact .head secondDone (.head thirdDone (.single firstDone))
  refine ⟨_, run, ?_, extractAll_in_any_order.2 _ _ _ _ run⟩
  decide +kernel

end Survey

end SourceComments
