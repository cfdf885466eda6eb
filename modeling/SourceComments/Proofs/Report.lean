import SourceComments.Command.Run
import Mathlib.Data.List.Basic

/-! What a report says about the issues behind it.

Every issue is an error, so a report without issues is a success and any other a failure. The
closing line of a text report and the list of issues in a JSON report say the same. -/

namespace SourceComments

namespace Findings

theorem errorCount_eq (findings : Findings) : findings.errorCount = findings.issues.length := by
  rw [errorCount, List.countP_eq_length]
  intro issue _
  cases issue <;> rfl

end Findings

namespace ExitStatus

theorem ofReport_eq {report : Report} {findings : Findings}
    (counted : report.errorCount = findings.errorCount) :
    ofReport report = if findings.issues = [] then success else failure := by
  rw [ofReport, counted, findings.errorCount_eq]
  by_cases clean : findings.issues = []
  · rw [if_pos clean, clean]
    rfl
  · rw [if_neg clean, if_pos (List.length_pos_iff.mpr clean)]

end ExitStatus

namespace Report

/-- The last of the lines of a text whose lines all end with a newline. -/
def lastLine (text : String) : List Char :=
  (text.toList.splitOn '\n').dropLast.getLast?.getD []

theorem unlines_append (front back : List String) :
    unlines (front ++ back) = unlines front ++ unlines back := by
  rw [unlines, List.map_append, String.join_append]
  rfl

theorem unlines_cons (line : String) (lines : List String) :
    unlines (line :: lines) = line ++ "\n" ++ unlines lines := by
  rw [unlines, List.map_cons, String.join_cons]
  rfl

theorem unlines_concat (lines : List String) (line : String) :
    (unlines (lines ++ [line])).toList = (unlines lines).toList ++ line.toList ++ ['\n'] := by
  have single : (unlines [line]).toList = line.toList ++ ['\n'] := by simp [unlines]
  rw [unlines_append, String.toList_append, List.append_assoc, single]

theorem lastLine_unlines (lines : List String) {line : String} (plain : '\n' ∉ line.toList) :
    lastLine (unlines (lines ++ [line])) = line.toList := by
  have whole := unlines_concat lines line
  rw [lastLine, whole, List.splitOn_append_cons_self, List.splitOn_nil, List.dropLast_concat]
  -- Behind the newline of the line before, or at the start, only the last line is left.
  rcases List.eq_nil_or_concat' lines with rfl | ⟨others, before, rfl⟩
  · rw [unlines, List.map_nil, String.join_nil, String.toList_empty, List.nil_append,
      List.splitOn_eq_singleton plain]
    rfl
  · rw [unlines_concat, List.append_assoc, List.singleton_append, List.splitOn_append_cons_self,
      List.splitOn_eq_singleton plain, List.getLast?_concat]
    rfl

theorem not_mem_digits {char : Char} (letter : char.isDigit = false) (number : Nat) :
    char ∉ Nat.toDigits 10 number := by
  intro member
  rw [Nat.isDigit_of_mem_toDigits (Nat.succ_pos 9) (Nat.le_refl 10) member] at letter
  cases letter

section

variable {char : Char} (letter : char.isDigit = false)

include letter

theorem not_mem_plural {noun : String} (outside : char ∉ (" " ++ noun ++ "s").toList)
    (count : Nat) : char ∉ (plural count noun).toList := by
  have number := not_mem_digits letter count
  rw [plural]
  split <;> simp_all

theorem not_mem_countsText (outside : char ∉ "Extracted comments from files".toList)
    (findings : Findings) : char ∉ (countsText findings).toList := by
  have comments : char ∉ (plural findings.commentCount "comment").toList := by
    apply not_mem_plural letter
    simp_all
  have files : char ∉ (plural findings.files.length "file").toList := by
    apply not_mem_plural letter
    simp_all
  simp_all [countsText]

end

/-- The closing line of a plain report is one line, and its mark tells whether there are
issues. -/
theorem summaryLine_plain (findings : Findings) :
    '\n' ∉ (summaryLine false findings).toList ∧
      (successMark.toList <+: (summaryLine false findings).toList ↔ findings.issues = []) := by
  have counts : '\n' ∉ (countsText findings).toList :=
    not_mem_countsText (by decide) (by decide) findings
  have files : '\n' ∉ (plural findings.issues.length "file").toList :=
    not_mem_plural (by decide) (by decide) findings.issues.length
  rw [summaryLine]
  by_cases clean : findings.issues = []
  · simp [clean, Style.paint, successMark, counts]
  · simp [clean, Style.paint, successMark, failureMark, counts, files]

theorem lastLine_render (findings : Findings) :
    successMark.toList <+: lastLine (render false .text (.scan findings)) ↔
      findings.issues = [] := by
  obtain ⟨plain, marked⟩ := summaryLine_plain findings
  rw [render, lastLine_unlines _ plain]
  exact marked

/-- The text of a report with these documents for its files and its issues. -/
def listing (files issues : List Json) : String :=
  (Json.object [("files", .array files), ("issues", .array issues)]).pretty ++ "\n"

/-- Only an empty array has its brackets side by side. -/
theorem array_ends (depth : Nat) (documents : List Json) :
    ∃ front, Json.prettyChars (depth + 1) (.array documents) =
      front ++ [if documents = [] then '[' else ' ', ']'] := by
  cases documents with
  | nil => exact ⟨[], by rw [Json.prettyChars]; rfl⟩
  | cons document documents =>
      have indented : Json.lineBreak (depth + 1) = Json.lineBreak depth ++ [' '] ++ [' '] := by
        rw [Json.lineBreak, Json.lineBreak, List.cons_append, List.cons_append,
          ← List.replicate_succ', ← List.replicate_succ']
        rfl
      rw [Json.prettyChars, indented, if_neg (List.cons_ne_nil document documents)]
      simp only [← List.append_assoc]
      rw [List.append_assoc]
      exact ⟨_, rfl⟩

theorem listing_ends (files issues : List Json) :
    ∃ front, (listing files issues).toList =
      front ++ [if issues = [] then '[' else ' ', ']', '\n', '\x7d', '\n'] := by
  obtain ⟨front, ends⟩ := array_ends 0 issues
  rw [listing, String.toList_append, Json.pretty, String.toList_ofList, Json.prettyChars,
    Json.prettyMembers, Json.prettyMembers, ends]
  refine ⟨'\x7b' :: (Json.lineBreak 1 ++ Json.quoted "files" ++ [':', ' '] ++
    Json.prettyChars 1 (.array files) ++ ',' :: (Json.lineBreak 1 ++ Json.quoted "issues" ++
      [':', ' '] ++ front)), ?_⟩
  simp [Json.lineBreak]

/-- A text lists issues in one way only, as far as there being any. -/
theorem listing_issues {files issues otherFiles otherIssues : List Json}
    (same : listing files issues = listing otherFiles otherIssues) :
    issues = [] ↔ otherIssues = [] := by
  obtain ⟨front, ends⟩ := listing_ends files issues
  obtain ⟨otherFront, otherEnds⟩ := listing_ends otherFiles otherIssues
  rw [same, otherEnds] at ends
  have last := (List.append_inj' ends rfl).2
  by_cases clean : issues = []
  · by_cases otherClean : otherIssues = []
    · simp [clean, otherClean]
    · simp [clean, otherClean] at last
  · by_cases otherClean : otherIssues = []
    · simp [clean, otherClean] at last
    · simp [clean, otherClean]

theorem render_json (colors : Bool) (findings : Findings) :
    render colors .json (.scan findings) =
      listing (findings.files.map fileJson) (findings.issues.map issueJson) := rfl

end Report

end SourceComments
