import SourceComments.Proofs.Report.Listing

/-! Styles only decorate a report.

A style sequence begins with an escape character, so in a text without escape characters none can
begin or be cut apart. Parts of a line are padded before they are styled. So a report with colours
is the report without them, with style sequences put between its characters. -/

namespace SourceComments

namespace Style

/-- A character that may stand between the bracket of a style sequence and its last letter. -/
def isParameter (char : Char) : Bool := char.isDigit || char == ';'

/-- The text behind the style sequence it starts with. -/
def behindSequence? : List Char → Option (List Char)
  | '\x1b' :: '[' :: text =>
      match text.dropWhile isParameter with
      | 'm' :: rest => some rest
      | _ => none
  | _ => none

theorem behindSequence?_length {text rest : List Char}
    (found : behindSequence? text = some rest) : rest.length < text.length := by
  rw [behindSequence?.eq_def] at found
  split at found
  · rename_i inner
    split at found
    · rename_i others dropped
      obtain rfl := Option.some.inj found
      have shorter := (List.dropWhile_suffix (p := isParameter) (l := inner)).length_le
      rw [dropped] at shorter
      simp only [List.length_cons] at shorter ⊢
      omega
    · cases found
  · cases found

/-- The text without its style sequences. -/
def strip : List Char → List Char
  | [] => []
  | char :: text =>
      match _found : behindSequence? (char :: text) with
      | some rest => strip rest
      | none => char :: strip text
termination_by text => text.length
decreasing_by
  · exact behindSequence?_length _found
  · exact Nat.lt_succ_self _

theorem strip_sequence {text rest : List Char} (found : behindSequence? text = some rest) :
    strip text = strip rest := by
  cases text with
  | nil => cases found
  | cons char text =>
      rw [strip]
      split
      · rename_i same
        rw [Option.some.inj (same.symm.trans found)]
      · rename_i missing
        rw [missing] at found
        cases found

theorem strip_cons {char : Char} (ordinary : char ≠ '\x1b') (text : List Char) :
    strip (char :: text) = char :: strip text := by
  have missing : behindSequence? (char :: text) = none := by
    rw [behindSequence?.eq_def]
    split
    · rename_i begins
      exact absurd (List.cons.inj begins).1 ordinary
    · rfl
  rw [strip]
  split
  · rename_i found
    rw [found] at missing
    cases missing
  · rfl

theorem strip_append {text : List Char} (unstyled : '\x1b' ∉ text) (rest : List Char) :
    strip (text ++ rest) = text ++ strip rest := by
  induction text with
  | nil => rfl
  | cons char text ih =>
      rw [List.mem_cons, not_or] at unstyled
      rw [List.cons_append, strip_cons (Ne.symm unstyled.1), ih unstyled.2, List.cons_append]

theorem strip_opening (style : Style) (rest : List Char) :
    strip (style.opening ++ rest) = strip rest := by
  have parameters : style.codes.toList.all isParameter = true := by cases style <;> rfl
  have last : isParameter 'm' ≠ true := by decide
  apply strip_sequence
  rw [opening]
  simp only [List.cons_append, List.append_assoc, List.nil_append, behindSequence?]
  rw [List.dropWhile_append_of_pos (List.all_eq_true.mp parameters),
    List.dropWhile_cons_of_neg last]
  rfl

theorem strip_reset (rest : List Char) : strip (reset ++ rest) = strip rest :=
  strip_sequence rfl

/-- Where no reset can be, nothing is resumed. -/
theorem resume_eq {text : List Char} (unstyled : '\x1b' ∉ text) (opening : List Char) :
    resume opening text = text := by
  fun_induction resume opening text with
  | case1 => simp at unstyled
  | case2 char text _ ih =>
      rw [List.mem_cons, not_or] at unstyled
      rw [ih unstyled.2]
  | case3 => rfl

end Style

/-- The shown text is the plain one with style sequences put in, and the plain one has none. -/
structure Decorates (shown plain : String) : Prop where
  unstyled : '\x1b' ∉ plain.toList
  strips : ∀ rest, Style.strip (shown.toList ++ rest) = plain.toList ++ Style.strip rest

namespace Decorates

variable {shown plain other otherPlain : String}

theorem of_plain (unstyled : '\x1b' ∉ plain.toList) : Decorates plain plain :=
  ⟨unstyled, Style.strip_append unstyled⟩

theorem paint (style : Style) (unstyled : '\x1b' ∉ plain.toList) :
    Decorates (style.paint true plain) (style.paint false plain) where
  unstyled := unstyled
  strips rest := by
    rw [Style.paint, Style.paint, if_pos rfl, if_neg Bool.false_ne_true, String.toList_ofList,
      Style.resume_eq unstyled, List.append_assoc, List.append_assoc, Style.strip_opening,
      Style.strip_append unstyled, Style.strip_reset]

theorem append (first : Decorates shown plain) (second : Decorates other otherPlain) :
    Decorates (shown ++ other) (plain ++ otherPlain) where
  unstyled := by
    rw [String.toList_append, List.mem_append, not_or]
    exact ⟨first.unstyled, second.unstyled⟩
  strips rest := by
    rw [String.toList_append, String.toList_append, List.append_assoc, first.strips,
      second.strips, List.append_assoc]

theorem strip_eq (decorates : Decorates shown plain) :
    Style.strip shown.toList = plain.toList := by
  have whole := decorates.strips []
  rw [List.append_nil, Style.strip, List.append_nil] at whole
  exact whole

theorem unlines {lines others : List String} (each : List.Forall₂ Decorates lines others) :
    Decorates (Report.unlines lines) (Report.unlines others) := by
  induction each with
  | nil => exact of_plain (by decide)
  | cons first _ ih =>
      have newline : Decorates "\n" "\n" := of_plain (by decide)
      rw [Report.unlines_cons, Report.unlines_cons]
      exact (first.append newline).append ih

end Decorates

/-- No path, content or message has an escape character. -/
structure Findings.Unstyled (findings : Findings) : Prop where
  paths : ∀ file ∈ findings.files, '\x1b' ∉ file.path.toList
  contents : ∀ file ∈ findings.files, ∀ comment ∈ file.comments, '\x1b' ∉ comment.content.toList
  issuePaths : ∀ issue ∈ findings.issues, '\x1b' ∉ issue.path.toList
  messages : ∀ issue ∈ findings.issues, '\x1b' ∉ issue.message.toList

namespace Report

/-- Nothing that the report tells has an escape character. -/
def Unstyled : Report → Prop
  | scan findings | extract findings => findings.Unstyled
  | created path => '\x1b' ∉ path.toList

theorem displayPath_unstyled {path : String} (unstyled : '\x1b' ∉ path.toList) :
    '\x1b' ∉ (displayPath path).toList := by
  rw [displayPath]
  split
  · rename_i rest dotted
    rw [dotted] at unstyled
    rw [String.toList_ofList]
    exact fun member => unstyled (List.mem_cons_of_mem _ (List.mem_cons_of_mem _ member))
  · exact unstyled

theorem escapeContent_unstyled {content : String} (unstyled : '\x1b' ∉ content.toList) :
    '\x1b' ∉ (escapeContent content).toList := by
  intro shown
  rcases mem_escapeContent shown with written | ⟨member, -⟩
  · exact absurd written (by decide)
  · exact unstyled member

theorem paddedLocation_unstyled (width : Nat) (comment : Comment) :
    '\x1b' ∉ (padRight width (locationText comment)).toList := by
  have location : '\x1b' ∉ (locationText comment).toList := by
    rw [locationText_eq]
    exact comment.listed.not_mem_location (by decide) (by decide)
  rw [padRight, String.toList_ofList, List.mem_append, not_or, List.mem_replicate]
  exact ⟨location, fun blank => absurd blank.2 (by decide)⟩

section

variable {findings : Findings}

theorem fileLines_decorates {file : FileComments} (path : '\x1b' ∉ file.path.toList)
    (contents : ∀ comment ∈ file.comments, '\x1b' ∉ comment.content.toList) :
    List.Forall₂ Decorates (fileLines true file) (fileLines false file) := by
  have margin : Decorates "  " "  " := .of_plain (by decide)
  refine .cons (.paint .bold (displayPath_unstyled path)) ?_
  rw [List.forall₂_map_left_iff, List.forall₂_map_right_iff, List.forall₂_same]
  intro comment member
  have location := Decorates.paint .blue
    (paddedLocation_unstyled (locationWidth file.comments) comment)
  have content := Decorates.of_plain (escapeContent_unstyled (contents comment member))
  exact ((margin.append location).append margin).append content

theorem issueLines_decorates {issue : Issue} (path : '\x1b' ∉ issue.path.toList)
    (message : '\x1b' ∉ issue.message.toList) :
    List.Forall₂ Decorates (issueLines true issue) (issueLines false issue) := by
  have margin : Decorates "  " "  " := .of_plain (by decide)
  have blank : Decorates " " " " := .of_plain (by decide)
  have colon : Decorates ": " ": " := .of_plain (by decide)
  have severity : '\x1b' ∉ issue.severity.name.toList := by cases issue.severity <;> decide
  have rule : '\x1b' ∉ issue.rule.name.toList := by cases issue.rule <;> decide
  have title := (((Decorates.paint (severityStyle issue.severity) severity).append colon).append
    (.of_plain message)).append margin |>.append (.paint .dimmedCyan rule)
  have arrow := margin.append (.paint .blue (by decide : '\x1b' ∉ "-->".toList))
  have place := (arrow.append blank).append (.of_plain (displayPath_unstyled path))
  refine .cons title (.cons place ?_)
  cases issue with
  | unterminated file =>
      have mark := margin.append (.paint .blue (by decide : '\x1b' ∉ "=".toList))
      have label := (mark.append blank).append
        (.paint .boldCyan (by decide : '\x1b' ∉ "hint:".toList))
      exact .cons ((label.append blank).append (.of_plain (by decide))) .nil
  | unreadable file reason => exact .nil

theorem forall₂_flatMap {α : Type} {items : List α} {shown plain : α → List String}
    (each : ∀ item ∈ items, List.Forall₂ Decorates (shown item) (plain item)) :
    List.Forall₂ Decorates (items.flatMap shown) (items.flatMap plain) := by
  induction items with
  | nil => exact .nil
  | cons item items ih =>
      obtain ⟨first, later⟩ := List.forall_mem_cons.mp each
      exact List.rel_append first (ih later)

theorem findingsLines_decorates (unstyled : findings.Unstyled) :
    List.Forall₂ Decorates (findingsLines true findings) (findingsLines false findings) := by
  apply List.rel_append
  · apply forall₂_flatMap
    intro file member
    have listed := List.mem_of_mem_filter member
    exact fileLines_decorates (unstyled.paths file listed) (unstyled.contents file listed)
  · apply forall₂_flatMap
    intro issue member
    exact issueLines_decorates (unstyled.issuePaths issue member) (unstyled.messages issue member)

theorem summaryLine_decorates (findings : Findings) :
    Decorates (summaryLine true findings) (summaryLine false findings) := by
  have counts : '\x1b' ∉ (countsText findings).toList :=
    not_mem_countsText (by decide) (by decide) findings
  have files : '\x1b' ∉ (plural findings.issues.length "file").toList :=
    not_mem_plural (by decide) (by decide) findings.issues.length
  have blank : Decorates " " " " := .of_plain (by decide)
  rw [summaryLine, summaryLine]
  split
  · have mark := Decorates.paint .green (by decide : '\x1b' ∉ successMark.toList)
    exact (mark.append blank).append (.paint .green counts)
  · have mark := Decorates.paint .red (by decide : '\x1b' ∉ failureMark.toList)
    have comma : Decorates ", " ", " := .of_plain (by decide)
    have counted := ((mark.append blank).append (.of_plain counts)).append comma
    exact (counted.append (.paint .red files)).append (.of_plain (by decide))

/-- A text report with colours is the report without them, decorated. -/
theorem render_decorates {report : Report} (unstyled : report.Unstyled) :
    Decorates (report.render true .text) (report.render false .text) := by
  cases report with
  | scan findings =>
      have lines := findingsLines_decorates unstyled
      exact .unlines (List.rel_append lines (.cons (summaryLine_decorates findings) .nil))
  | extract findings => exact .unlines (findingsLines_decorates unstyled)
  | created path =>
      have told : '\x1b' ∉ ("Created " ++ path).toList := by
        rw [String.toList_append, List.mem_append, not_or]
        exact ⟨by decide, unstyled⟩
      have mark := Decorates.paint .green (by decide : '\x1b' ∉ successMark.toList)
      have blank : Decorates " " " " := .of_plain (by decide)
      exact .unlines (.cons ((mark.append blank).append (.paint .green told)) .nil)

/-- Colours only decorate. Where nothing that is told has an escape character, the report without
colours has none, and it is what is left of the one with colours when the style sequences are
deleted. -/
theorem strip_render (report : Report) (unstyled : report.Unstyled) :
    '\x1b' ∉ (report.render false .text).toList ∧
      Style.strip (report.render true .text).toList = (report.render false .text).toList :=
  ⟨(render_decorates unstyled).unstyled, (render_decorates unstyled).strip_eq⟩

/-- A file with locations of different widths, and one that cannot be read. -/
def aligned : Findings :=
  ⟨[⟨"./a.c", .c, [⟨" x", .line 9⟩, ⟨"\n", .lines 10 12⟩]⟩], [.unreadable "b.js" "denied"]⟩

/-- The contents stay in their column. -/
theorem strip_render_of_aligned :
    (extract aligned).Unstyled ∧
      Style.strip (render true .text (extract aligned)).toList =
        ("a.c\n  9       x\n  10-12  \\n\n" ++
          "error: denied  read-error\n  --> b.js\n").toList := by
  have unstyled : (extract aligned).Unstyled := by
    constructor <;> decide
  refine ⟨unstyled, ?_⟩
  rw [(strip_render _ unstyled).2]
  rfl

end

end Report

end SourceComments
