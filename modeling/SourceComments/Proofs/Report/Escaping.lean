import SourceComments.Report
import Mathlib.Data.List.Basic

/-! How a content is shown on one line.

Replacements that follow one another amount to a single pass when none of them finds what an
earlier one has written. Backslashes are doubled before the others are written with one, so this
is how a content is shown, and it can be read back. -/

namespace SourceComments.Report

/-- What a single pass writes for a character: the first replacement decides, and what it writes
is not looked at again. -/
def substitute : List (Char × List Char) → Char → List Char
  | [], char => [char]
  | (target, written) :: others, char => if char = target then written else substitute others char

section

variable {replacements : List (Char × List Char)}

theorem substitute_of_ne {char : Char}
    (other : ∀ replacement ∈ replacements, char ≠ replacement.1) :
    substitute replacements char = [char] := by
  induction replacements with
  | nil => rfl
  | cons replacement others ih =>
      rw [List.forall_mem_cons] at other
      rw [substitute, if_neg other.1, ih other.2]

theorem flatMap_substitute_of_not_mem {text : List Char}
    (untouched : ∀ replacement ∈ replacements, replacement.1 ∉ text) :
    text.flatMap (substitute replacements) = text := by
  have kept : ∀ char ∈ text, substitute replacements char = [char] := by
    intro char member
    refine substitute_of_ne fun replacement listed => ?_
    exact ne_of_mem_of_not_mem member (untouched replacement listed)
  rw [List.flatMap_congr kept, List.flatMap_singleton']

/-- Passes that follow one another are a single pass if none replaces what an earlier one has
written. -/
theorem foldl_replaceChar
    (fresh : replacements.Pairwise fun earlier later => later.1 ∉ earlier.2) (text : List Char) :
    replacements.foldl (fun text replacement => replaceChar replacement.1 replacement.2 text) text =
      text.flatMap (substitute replacements) := by
  induction replacements generalizing text with
  | nil => exact (List.flatMap_singleton' text).symm
  | cons replacement others ih =>
      obtain ⟨untouched, fresh⟩ := List.pairwise_cons.mp fresh
      rw [List.foldl_cons, ih fresh, replaceChar, List.flatMap_assoc]
      refine List.flatMap_congr fun char _ => ?_
      rw [substitute]
      split
      · exact flatMap_substitute_of_not_mem untouched
      · exact List.flatMap_singleton _ char

end

/-- What is replaced in a content, in this order. -/
def escapes : List (Char × List Char) :=
  [('\\', ['\\', '\\']), ('\n', ['\\', 'n']), ('\r', ['\\', 'r']), ('\t', ['\\', 't'])]

/-- How one character of a content is shown. -/
def escapeChar (char : Char) : List Char :=
  if char = '\\' then ['\\', '\\']
  else if char = '\n' then ['\\', 'n']
  else if char = '\r' then ['\\', 'r']
  else if char = '\t' then ['\\', 't']
  else [char]

theorem substitute_escapes : substitute escapes = escapeChar := by
  funext char
  simp only [escapes, substitute, escapeChar]

theorem toList_escapeContent (content : String) :
    (escapeContent content).toList = content.toList.flatMap escapeChar := by
  -- Of the characters that are replaced, only the backslash is also written, and it comes first.
  have fresh : escapes.Pairwise fun earlier later => later.1 ∉ earlier.2 := by decide
  have passes : (escapeContent content).toList =
      escapes.foldl (fun text replacement => replaceChar replacement.1 replacement.2 text)
        content.toList := by
    simp only [escapeContent, escapes, String.toList_ofList, List.foldl_cons, List.foldl_nil]
  rw [passes, foldl_replaceChar fresh, substitute_escapes]

theorem escapeContent_append (front back : String) :
    escapeContent (front ++ back) = escapeContent front ++ escapeContent back := by
  rw [← String.toList_inj, String.toList_append]
  simp only [toList_escapeContent, String.toList_append, List.flatMap_append]

/-- Reads a shown content back. -/
def unescape : List Char → List Char
  | '\\' :: '\\' :: rest => '\\' :: unescape rest
  | '\\' :: 'n' :: rest => '\n' :: unescape rest
  | '\\' :: 'r' :: rest => '\r' :: unescape rest
  | '\\' :: 't' :: rest => '\t' :: unescape rest
  | char :: rest => char :: unescape rest
  | [] => []

theorem unescape_escapeChar (char : Char) (rest : List Char) :
    unescape (escapeChar char ++ rest) = char :: unescape rest := by
  rw [escapeChar]
  split_ifs with backslash newline carriageReturn tab
  · rw [backslash]
    rfl
  · rw [newline]
    rfl
  · rw [carriageReturn]
    rfl
  · rw [tab]
    rfl
  · -- Only a backslash begins what is read as more than one character.
    rw [List.singleton_append, unescape]
    all_goals exact fun _ escaped => absurd escaped backslash

theorem unescape_escapeContent (content : String) :
    unescape (escapeContent content).toList = content.toList := by
  rw [toList_escapeContent]
  induction content.toList with
  | nil => rfl
  | cons char chars ih => rw [List.flatMap_cons, unescape_escapeChar, ih]

theorem escapeContent_injective {left right : String}
    (same : escapeContent left = escapeContent right) : left = right := by
  rw [← String.toList_inj, ← unescape_escapeContent left, same, unescape_escapeContent]

/-- A replaced character leaves a backslash and a letter, any other is shown as it is. -/
theorem mem_escapeContent {content : String} {char : Char}
    (shown : char ∈ (escapeContent content).toList) :
    char ∈ ['\\', 'n', 'r', 't'] ∨ char ∈ content.toList ∧ char ∉ ['\n', '\r', '\t'] := by
  rw [toList_escapeContent, List.mem_flatMap] at shown
  obtain ⟨original, member, written⟩ := shown
  rw [escapeChar] at written
  grind

/-- A shown content has no line breaks, carriage returns or tabs. -/
theorem not_mem_escapeContent (content : String) {char : Char}
    (control : char ∈ ['\n', '\r', '\t']) : char ∉ (escapeContent content).toList := by
  intro shown
  rcases mem_escapeContent shown with written | ⟨-, other⟩
  · grind
  · exact other control

/-- A content is shown by one pass over its characters. The pass leaves no line break, carriage
return or tab, and it can be undone, so that contents are told apart; a content made of two parts
is shown as the parts are. -/
theorem escapeContent_one_pass (content other : String) :
    (escapeContent content).toList = content.toList.flatMap escapeChar ∧
      '\n' ∉ (escapeContent content).toList ∧
      '\r' ∉ (escapeContent content).toList ∧
      '\t' ∉ (escapeContent content).toList ∧
      String.ofList (unescape (escapeContent content).toList) = content ∧
      (escapeContent content = escapeContent other ↔ content = other) ∧
      escapeContent (content ++ other) = escapeContent content ++ escapeContent other := by
  refine ⟨toList_escapeContent content, not_mem_escapeContent content (by decide),
    not_mem_escapeContent content (by decide), not_mem_escapeContent content (by decide), ?_, ?_,
    escapeContent_append content other⟩
  · rw [unescape_escapeContent, String.ofList_toList]
  · exact ⟨escapeContent_injective, congrArg escapeContent⟩

end SourceComments.Report
