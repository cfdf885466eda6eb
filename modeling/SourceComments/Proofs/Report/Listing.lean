import SourceComments.Proofs.Report
import SourceComments.Proofs.Report.Escaping
import Mathlib.Data.List.Forall2
import Mathlib.Data.List.TakeWhile

/-! The comments of one file, listed in plain text.

Every comment has one line: its location up to the first blank, and its content from a column
that is the same for all. A listing can be read back: the locations stand in front of the first
blank of their lines, the widest of them tells where the contents begin, and escaping can be
undone. -/

namespace SourceComments

/-- What a listing tells of a comment. Whether a comment on one line has a closer is not told. -/
structure Listed where
  first : Nat
  last : Nat
  content : String
  deriving DecidableEq

def Comment.listed (comment : Comment) : Listed :=
  ⟨comment.firstLine, comment.lastLine, comment.content⟩

namespace Listed

def location (listed : Listed) : String :=
  if listed.first = listed.last then toString listed.first
  else toString listed.first ++ "-" ++ toString listed.last

/-- The line of a comment where locations have this width. -/
def line (width : Nat) (listed : Listed) : String :=
  "  " ++ Report.padRight width listed.location ++ "  " ++ Report.escapeContent listed.content

/-- The width of the widest location. -/
def width (entries : List Listed) : Nat :=
  ((entries.map fun listed => listed.location.length).max?).getD 1

/-- The first and the last line in a location. -/
def readLocation (text : List Char) : Nat × Nat :=
  match (text.splitOn '-').map fun digits => Nat.ofDigitChars 10 digits 0 with
  | [] => (0, 0)
  | [number] => (number, number)
  | first :: last :: _ => (first, last)

/-- The location in a line. -/
def shownLocation (line : List Char) : List Char := (line.drop 2).takeWhile (· ≠ ' ')

def readLine (width : Nat) (line : List Char) : Listed :=
  let (first, last) := readLocation (shownLocation line)
  ⟨first, last, String.ofList (Report.unescape (line.drop (width + 4)))⟩

/-- Reads the lines of a listing back. -/
def readLines (lines : List (List Char)) : List Listed :=
  let width := ((lines.map fun line => (shownLocation line).length).max?).getD 1
  lines.map (readLine width)

section

variable {listed : Listed} {char : Char}

theorem toList_toString (number : Nat) : (toString number).toList = Nat.toDigits 10 number := by
  rw [Nat.toString_eq_ofList_toDigits, String.toList_ofList]

/-- A location has only digits and a dash. -/
theorem not_mem_location (listed : Listed) (other : char ≠ '-') (letter : char.isDigit = false) :
    char ∉ listed.location.toList := by
  have outside := Report.not_mem_digits letter
  rw [location]
  split
  · rw [toList_toString]
    exact outside listed.first
  · simp [outside, other]

theorem splitOn_location (listed : Listed) :
    listed.location.toList.splitOn '-' =
      if listed.first = listed.last then [Nat.toDigits 10 listed.first]
      else [Nat.toDigits 10 listed.first, Nat.toDigits 10 listed.last] := by
  have dashless (number : Nat) : '-' ∉ Nat.toDigits 10 number :=
    Report.not_mem_digits (by decide) number
  have dash : "-".toList = ['-'] := rfl
  rw [location]
  split
  · rw [toList_toString, List.splitOn_eq_singleton (dashless _)]
  · rw [String.toList_append, String.toList_append, toList_toString, toList_toString, dash,
      List.append_assoc, List.singleton_append, List.splitOn_append_cons_self,
      List.splitOn_eq_singleton (dashless _), List.splitOn_eq_singleton (dashless _)]
    rfl

theorem readLocation_location (listed : Listed) :
    readLocation listed.location.toList = (listed.first, listed.last) := by
  have number (value : Nat) : Nat.ofDigitChars 10 (Nat.toDigits 10 value) 0 = value :=
    Nat.ofDigitChars_toDigits (by decide) (Nat.le_refl 10)
  rw [readLocation, splitOn_location]
  split_ifs with single
  · simp only [List.map_cons, List.map_nil, number]
    rw [← single]
  · simp only [List.map_cons, List.map_nil, number]

theorem location_length_le {entries : List Listed} (member : listed ∈ entries) :
    listed.location.length ≤ width entries := by
  have counted : listed.location.length ∈ entries.map fun entry => entry.location.length :=
    List.mem_map.mpr ⟨listed, member, rfl⟩
  cases found : (entries.map fun entry => entry.location.length).max? with
  | none =>
      rw [List.max?_eq_none_iff.mp found] at counted
      cases counted
  | some widest =>
      rw [width, found, Option.getD_some]
      exact (List.max?_eq_some_iff.mp found).2 _ counted

/-- The characters of a line. A blank follows the location in any case. -/
theorem toList_line {bound : Nat} (listed : Listed) :
    (listed.line bound).toList = [' ', ' '] ++ listed.location.toList ++
      List.replicate (bound - listed.location.length + 2) ' ' ++
        (Report.escapeContent listed.content).toList := by
  have gap : "  ".toList = [' ', ' '] := rfl
  have blanks (count : Nat) : List.replicate (count + 2) ' ' =
      List.replicate count ' ' ++ [' ', ' '] := List.replicate_add count 2 ' '
  rw [line, Report.padRight, blanks]
  simp only [String.toList_append, String.toList_ofList, gap, List.append_assoc]

theorem shownLocation_line (bound : Nat) (listed : Listed) :
    shownLocation (listed.line bound).toList = listed.location.toList := by
  have kept : ∀ char ∈ listed.location.toList, decide (char ≠ ' ') = true := by
    intro char member
    rw [decide_eq_true_eq]
    rintro rfl
    exact listed.not_mem_location (by decide) (by decide) member
  have margin (rest : List Char) : ([' ', ' '] ++ rest).drop 2 = rest := rfl
  rw [shownLocation, toList_line, List.append_assoc, List.append_assoc, margin,
    List.takeWhile_append_of_pos kept, List.replicate_succ, List.cons_append,
    List.takeWhile_cons_of_neg (by decide), List.append_nil]

theorem readLine_line {bound : Nat} (fits : listed.location.length ≤ bound) :
    readLine bound (listed.line bound).toList = listed := by
  have column : ([' ', ' '] ++ listed.location.toList ++
      List.replicate (bound - listed.location.length + 2) ' ').length = bound + 4 := by
    simp only [List.length_append, List.length_cons, List.length_nil, List.length_replicate,
      String.length_toList]
    omega
  rw [readLine, shownLocation_line, readLocation_location, toList_line, List.drop_left' column,
    Report.unescape_escapeContent, String.ofList_toList]

end

/-- The lines of a listing tell all that is listed. -/
theorem readLines_lines (entries : List Listed) :
    readLines ((entries.map (line (width entries))).map String.toList) = entries := by
  have widths : ((entries.map (line (width entries))).map String.toList).map
        (fun line => (shownLocation line).length) =
      entries.map fun listed => listed.location.length := by
    simp only [List.map_map, Function.comp_def, shownLocation_line, String.length_toList]
  have read : ∀ listed ∈ entries, readLine (width entries) (listed.line (width entries)).toList =
      id listed :=
    fun listed member => readLine_line (location_length_le member)
  calc readLines ((entries.map (line (width entries))).map String.toList)
      = ((entries.map (line (width entries))).map String.toList).map
          (readLine (width entries)) := by rw [readLines, widths, width]
    _ = entries.map fun listed =>
          readLine (width entries) (listed.line (width entries)).toList := by
        simp only [List.map_map, Function.comp_def]
    _ = entries.map id := List.map_congr_left read
    _ = entries := List.map_id entries

end Listed

namespace Report

theorem toList_unlines_cons (line : String) (lines : List String) :
    (unlines (line :: lines)).toList = line.toList ++ '\n' :: (unlines lines).toList := by
  rw [unlines_cons, String.toList_append, String.toList_append, List.append_assoc]
  rfl

/-- Lines without a newline can be told apart. The text behind the last newline is empty. -/
theorem splitOn_unlines {lines : List String} (plain : ∀ line ∈ lines, '\n' ∉ line.toList) :
    (unlines lines).toList.splitOn '\n' = lines.map String.toList ++ [[]] := by
  induction lines with
  | nil => rfl
  | cons line lines ih =>
      have others := ih fun other member => plain other (List.mem_cons_of_mem line member)
      rw [toList_unlines_cons, List.splitOn_append_cons_self,
        List.splitOn_eq_singleton (plain line List.mem_cons_self), others]
      rfl

theorem locationText_eq (comment : Comment) : locationText comment = comment.listed.location := by
  obtain ⟨content, span⟩ := comment
  cases span with
  | line number => exact (if_pos rfl).symm
  | lines first last => rfl

theorem fileLines_plain (path : String) (language : Language) (comments : List Comment) :
    fileLines false ⟨path, language, comments⟩ = displayPath path ::
      (comments.map Comment.listed).map
        (Listed.line (Listed.width (comments.map Comment.listed))) := by
  have widths : locationWidth comments = Listed.width (comments.map Comment.listed) := by
    simp only [locationWidth, Listed.width, List.map_map, Function.comp_def, locationText_eq]
  simp only [fileLines, Style.paint, widths, locationText_eq, List.map_map]
  rfl

theorem newline_not_mem_line (bound : Nat) (listed : Listed) :
    '\n' ∉ (listed.line bound).toList := by
  have location : '\n' ∉ listed.location.toList :=
    listed.not_mem_location (by decide) (by decide)
  have content : '\n' ∉ (escapeContent listed.content).toList :=
    not_mem_escapeContent listed.content (by decide)
  rw [Listed.toList_line]
  simp [location, content]

theorem splitOn_listing (bound : Nat) (entries : List Listed) :
    (unlines (entries.map (Listed.line bound))).toList.splitOn '\n' =
      (entries.map (Listed.line bound)).map String.toList ++ [[]] := by
  refine splitOn_unlines fun line member => ?_
  obtain ⟨listed, -, rfl⟩ := List.mem_map.mp member
  exact newline_not_mem_line bound listed

/-- The line shows the comment: its location behind a margin of two blanks, and its content from
the column on, at least two blanks behind the location. -/
def Shows (column : Nat) (comment : Comment) (line : List Char) : Prop :=
  ∃ blanks, 2 ≤ blanks ∧ 2 + (locationText comment).length + blanks = column ∧
    line = [' ', ' '] ++ (locationText comment).toList ++ List.replicate blanks ' ' ++
      (escapeContent comment.content).toList

theorem shows_line {bound : Nat} {comment : Comment}
    (fits : comment.listed.location.length ≤ bound) :
    Shows (bound + 4) comment (comment.listed.line bound).toList := by
  refine ⟨bound - comment.listed.location.length + 2, Nat.le_add_left 2 _, ?_, ?_⟩
  · rw [locationText_eq]
    omega
  · rw [locationText_eq]
    exact comment.listed.toList_line

section

variable (path : String) (language : Language) (comments : List Comment)

/-- All contents begin in the column that the widest location leaves. -/
theorem fileLines_shows : ∃ column body lines,
    (unlines (fileLines false ⟨path, language, comments⟩)).toList =
        (displayPath path).toList ++ '\n' :: body ∧
      body.splitOn '\n' = lines ++ [[]] ∧ List.Forall₂ (Shows column) comments lines := by
  let entries := comments.map Comment.listed
  refine ⟨Listed.width entries + 4, _, _, ?_, splitOn_listing (Listed.width entries) entries, ?_⟩
  · rw [fileLines_plain, toList_unlines_cons]
  · rw [List.map_map, List.map_map, List.forall₂_map_right_iff, List.forall₂_same]
    intro comment member
    exact shows_line (Listed.location_length_le (List.mem_map.mpr ⟨comment, member, rfl⟩))

theorem listed_eq_of_unlines_eq {other : Language} {others : List Comment}
    (same : unlines (fileLines false ⟨path, language, comments⟩) =
      unlines (fileLines false ⟨path, other, others⟩)) :
    comments.map Comment.listed = others.map Comment.listed := by
  -- Behind the path the texts are the same, and reading their lines back gives the entries.
  have texts := congrArg String.toList same
  rw [fileLines_plain, fileLines_plain, toList_unlines_cons, toList_unlines_cons,
    List.append_cancel_left_eq, List.cons.injEq] at texts
  have lines := congrArg (List.splitOn '\n') texts.2
  rw [splitOn_listing, splitOn_listing] at lines
  rw [← Listed.readLines_lines (comments.map Comment.listed), List.append_cancel_right lines,
    Listed.readLines_lines]

/-- A listing is the line of the path and one line for each comment, with all contents in one
column. Under one path, listings are the same text only if they list the same. -/
theorem fileLines_unambiguous :
    (∃ column body lines,
      (unlines (fileLines false ⟨path, language, comments⟩)).toList =
          (displayPath path).toList ++ '\n' :: body ∧
        body.splitOn '\n' = lines ++ [[]] ∧ List.Forall₂ (Shows column) comments lines) ∧
      ∀ (other : Language) (others : List Comment),
        unlines (fileLines false ⟨path, language, comments⟩) =
            unlines (fileLines false ⟨path, other, others⟩) ↔
          comments.map Comment.listed = others.map Comment.listed := by
  refine ⟨fileLines_shows path language comments, fun other others => ⟨?_, ?_⟩⟩
  · exact listed_eq_of_unlines_eq path language comments
  · intro same
    rw [fileLines_plain, fileLines_plain, same]

end

end Report

end SourceComments
