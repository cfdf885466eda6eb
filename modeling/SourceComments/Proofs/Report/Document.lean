import SourceComments.Proofs.Json.Decoding
import SourceComments.Report
import Mathlib.Data.List.Forall2
import Mathlib.Data.List.Sort

/-! What the JSON form of a report says.

The form of the document is given member by member, apart from the way it is put together.
Every report is printed as a spelling of the one document that shows its findings, so nothing
of them is lost or changed on the way, whatever characters stand in paths, contents and
messages. -/

namespace SourceComments.Report

/-- A path is shown without the `./` that it starts with. Only one is taken away. -/
inductive PathShown : String → String → Prop where
  | below {path shown : String} (dotted : path.toList = '.' :: '/' :: shown.toList) :
      PathShown path shown
  | itself {path : String} (plain : ¬['.', '/'] <+: path.toList) : PathShown path path

/-- A comment of one line is shown with the number of that line, any other with the list of
all its lines. -/
inductive CommentShown : Comment → Json → Prop where
  | line (content : String) (number : Nat) :
      CommentShown ⟨content, .line number⟩
        (.object [("content", .string content), ("location", .number number),
          ("isMultiline", .bool false)])
  | lines (content : String) {first last : Nat} {numbers : List Nat}
      (ascending : numbers.Pairwise (· < ·))
      (all : ∀ number, number ∈ numbers ↔ first ≤ number ∧ number ≤ last) :
      CommentShown ⟨content, .lines first last⟩
        (.object [("content", .string content), ("location", .array (numbers.map .number)),
          ("isMultiline", .bool true)])

inductive FileShown : FileComments → Json → Prop where
  | members {path shown : String} (language : Language) {comments : List Comment}
      {documents : List Json} (pathShown : PathShown path shown)
      (commentsShown : List.Forall₂ CommentShown comments documents) :
      FileShown ⟨path, language, comments⟩
        (.object [("path", .string shown), ("language", .string language.name),
          ("comments", .array documents)])

inductive IssueShown : Issue → Json → Prop where
  | members {issue : Issue} {shown : String} (pathShown : PathShown issue.path shown) :
      IssueShown issue
        (.object [("path", .string shown), ("rule", .string issue.rule.name),
          ("severity", .string issue.severity.name), ("message", .string issue.message)])

/-- Every file and every issue is shown, in their order. -/
inductive FindingsShown : Findings → Json → Prop where
  | members {files : List FileComments} {issues : List Issue} {documents others : List Json}
      (filesShown : List.Forall₂ FileShown files documents)
      (issuesShown : List.Forall₂ IssueShown issues others) :
      FindingsShown ⟨files, issues⟩
        (.object [("files", .array documents), ("issues", .array others)])

theorem pathShown_displayPath (path : String) : PathShown path (displayPath path) := by
  rw [displayPath]
  split
  · rename_i rest dotted
    exact .below (by rw [dotted, String.toList_ofList])
  · rename_i plain
    refine .itself ?_
    rintro ⟨rest, dotted⟩
    exact plain rest dotted.symm

theorem commentShown_commentJson (comment : Comment) :
    CommentShown comment (commentJson comment) := by
  obtain ⟨content, span⟩ := comment
  cases span with
  | line number => exact .line content number
  | lines first last =>
      have ascending : (Span.lines first last).toList.Pairwise (· < ·) := List.pairwise_lt_range'
      refine .lines content ascending fun number => ?_
      rw [Span.toList, List.mem_range'_1]
      omega

theorem forall₂_map {α β : Type} {shown : α → β → Prop} {print : α → β}
    (each : ∀ item, shown item (print item)) (items : List α) :
    List.Forall₂ shown items (items.map print) := by
  rw [List.forall₂_map_right_iff, List.forall₂_same]
  exact fun item _ => each item

theorem fileShown_fileJson (file : FileComments) : FileShown file (fileJson file) :=
  .members file.language (pathShown_displayPath file.path)
    (forall₂_map commentShown_commentJson file.comments)

theorem issueShown_issueJson (issue : Issue) : IssueShown issue (issueJson issue) :=
  .members (pathShown_displayPath issue.path)

theorem findingsShown_findingsJson (findings : Findings) :
    FindingsShown findings (findingsJson findings) :=
  .members (forall₂_map fileShown_fileJson findings.files)
    (forall₂_map issueShown_issueJson findings.issues)

theorem PathShown.unique {path left right : String} (shown : PathShown path left)
    (shownToo : PathShown path right) : left = right := by
  cases shown with
  | below dotted =>
      cases shownToo with
      | below dottedToo =>
          rw [dotted] at dottedToo
          have same : left.toList = right.toList := by simpa using dottedToo
          exact String.toList_inj.mp same
      | itself plain => exact absurd ⟨left.toList, dotted.symm⟩ plain
  | itself plain =>
      cases shownToo with
      | below dotted => exact absurd ⟨right.toList, dotted.symm⟩ plain
      | itself => rfl

theorem commentShown_unique : Relator.RightUnique CommentShown := by
  intro comment left right shown shownToo
  cases shown with
  | line =>
      cases shownToo
      rfl
  | @lines content first last numbers ascending all =>
      cases shownToo with
      | @lines _ _ _ numbersToo ascendingToo allToo =>
          have same : numbers = numbersToo := by
            apply ascending.eq_of_mem_iff ascendingToo
            intro number
            rw [all, allToo]
          rw [same]

theorem fileShown_unique : Relator.RightUnique FileShown := by
  intro file left right shown shownToo
  obtain ⟨language, pathShown, commentsShown⟩ := shown
  obtain ⟨_, pathShownToo, commentsShownToo⟩ := shownToo
  rw [pathShown.unique pathShownToo, commentShown_unique.forall₂ commentsShown commentsShownToo]

theorem issueShown_unique : Relator.RightUnique IssueShown := by
  intro issue left right shown shownToo
  obtain ⟨pathShown⟩ := shown
  obtain ⟨pathShownToo⟩ := shownToo
  rw [pathShown.unique pathShownToo]

theorem findingsShown_unique : Relator.RightUnique FindingsShown := by
  intro findings left right shown shownToo
  obtain ⟨filesShown, issuesShown⟩ := shown
  obtain ⟨filesShownToo, issuesShownToo⟩ := shownToo
  rw [fileShown_unique.forall₂ filesShown filesShownToo,
    issueShown_unique.forall₂ issuesShown issuesShownToo]

/-- A report in JSON is one document and a newline. The document is the one that shows the
findings, and it is what the text is decoded to. -/
theorem render_json_shows_findings (colors : Bool) (findings : Findings) :
    ∃ (text : String) (document : Json),
      render colors .json (.scan findings) = text ++ "\n" ∧
      render colors .json (.extract findings) = text ++ "\n" ∧
      (∀ other, Json.Spells other text.toList ↔ other = document) ∧
      Json.decode (text ++ "\n") = .ok document ∧
      ∀ other, FindingsShown findings other ↔ other = document := by
  have spelled : Json.Spells (findingsJson findings) (findingsJson findings).pretty.toList := by
    rw [Json.pretty, String.toList_ofList]
    exact Json.spells_pretty 0 (findingsJson findings)
  have shown := findingsShown_findingsJson findings
  refine ⟨(findingsJson findings).pretty, findingsJson findings, rfl, rfl, ?_, ?_, ?_⟩
  · intro other
    constructor
    · intro spelledToo
      exact spelledToo.unique spelled
    · rintro rfl
      exact spelled
  · have newline : Json.Blank ['\n'] := by
      intro char member
      rw [List.mem_singleton.mp member]
      decide
    have around : Json.Around (findingsJson findings).pretty.toList
        ([] ++ ((findingsJson findings).pretty.toList ++ ['\n'])) :=
      .blanks Json.blank_nil newline
    apply Json.decode_spelled spelled
    rw [String.toList_append]
    exact around
  · intro other
    constructor
    · intro shownToo
      exact findingsShown_unique shownToo shown
    · rintro rfl
      exact shown

end SourceComments.Report
