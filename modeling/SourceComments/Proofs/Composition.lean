import SourceComments.Proofs.Shielding

/-! Texts read one after another.

A text that leaves nothing pending is followed by another as if that one stood alone, but
for the lines in front of it. In languages of the C family whole lines leave nothing
pending once they can be read through: a literal or a line comment reaches no further than
its line, and a block comment would have to be closed. The automaton leaves nothing pending
where it is in code, whatever lines it has noted for an earlier block comment. -/

namespace SourceComments

/-- A text made of whole lines: it is empty or ends with a newline. -/
def WholeLines (text : List Char) : Prop := text = [] ∨ text.getLast? = some '\n'

theorem WholeLines.tail {front rest : List Char} (lines : WholeLines (front ++ rest)) :
    WholeLines rest := by
  cases rest with
  | nil => exact .inl rfl
  | cons char rest =>
      right
      rcases lines with empty | newline
      · simp at empty
      · rwa [List.getLast?_append_of_ne_nil front (List.cons_ne_nil char rest)] at newline

theorem WholeLines.newline_mem {text : List Char} (lines : WholeLines text)
    (nonempty : text ≠ []) : '\n' ∈ text := by
  rcases lines with empty | newline
  · exact absurd empty nonempty
  · exact List.mem_of_getLast? newline

/-- What a text says together with what follows it, from what the latter says alone. -/
theorem Extracted.outcomes_of_map {whole own : Extracted} {change : List Comment → List Comment}
    (same : whole = own.map change) :
    (whole = .error .blockComment ↔ own = .error .blockComment) ∧
      ∀ comments, own = .ok comments → whole = .ok (change comments) := by
  subst same
  refine ⟨Grammar.map_eq_error, ?_⟩
  intro comments read
  rw [read]
  rfl

namespace Segment

/-- A segment that stands in whole lines stands there also when more text follows. -/
theorem stands_in_lines {segment : Segment} {rest : List Char} (stands : segment.Stands rest)
    (closed : segment.role ≠ .unclosed) (lines : WholeLines (segment.text ++ rest))
    (after : List Char) : segment.Stands (rest ++ after) := by
  cases segment with
  | code char =>
      cases rest with
      | nil =>
          -- The last character is the newline itself, and it opens nothing.
          obtain rfl : char = '\n' := by simpa [WholeLines, text] using lines
          exact ⟨by simp, by simp [OpensComment]⟩
      | cons next rest =>
          obtain ⟨unquoted, silent⟩ := stands
          have newline := lines.tail.newline_mem (List.cons_ne_nil next rest)
          refine ⟨?_, silent⟩
          rintro ⟨quote, closes⟩
          rcases closesOnLine_append.mp closes with here | ⟨-, inside, -⟩
          · exact unquoted ⟨quote, here⟩
          · exact inside newline
  | literal body => exact stands
  | lineComment body =>
      obtain ⟨inside, rfl | newline⟩ := stands
      · have final := lines.newline_mem (by simp [text])
        simp [text, inside] at final
      · refine ⟨inside, .inr ?_⟩
        rw [List.head?_append, newline]
        rfl
  | blockComment body => exact stands
  | unclosed body => exact absurd rfl closed

/-- Whole lines without an unclosed comment are cut the same way in front of any text. -/
theorem decomposes_append_of_lines {before after : List Char} {segments others : List Segment}
    (cut : grammar.Decomposes before segments)
    (closed : ∀ segment ∈ segments, segment.role ≠ .unclosed) (lines : WholeLines before)
    (cutAfter : grammar.Decomposes after others) :
    grammar.Decomposes (before ++ after) (segments ++ others) := by
  induction cut with
  | done => exact cutAfter
  | @piece segment rest later stands _ ih =>
      obtain ⟨here, onward⟩ := List.forall_mem_cons.mp closed
      rw [List.append_assoc, List.cons_append]
      exact .piece (stands_in_lines stands here lines after) (ih onward lines.tail)

/-- Behind whole lines that can be read through, a text gives its own comments, moved by the
newlines in front of it, and fails only if it fails by itself. -/
theorem extract_continues_lines (before after : List Char) (earlier : List Comment)
    (lines : WholeLines before) (read : extract before = .ok earlier) :
    (extract (before ++ after) = .error .blockComment ↔ extract after = .error .blockComment) ∧
      ∀ own, extract after = .ok own →
        extract (before ++ after) =
          .ok (earlier ++ own.map (Comment.shift (before.count '\n'))) := by
  obtain ⟨segments, cut⟩ := Grammar.decomposition_exists lawful before
  obtain ⟨others, cutAfter⟩ := Grammar.decomposition_exists lawful after
  rw [extract_eq_reading cut] at read
  have closed := Grammar.closed_of_reading read
  have whole := decomposes_append_of_lines cut closed lines cutAfter
  apply Extracted.outcomes_of_map
  calc extract (before ++ after)
    _ = grammar.reading 1 (segments ++ others) := extract_eq_reading whole
    _ = (grammar.reading (1 + before.count '\n') others).map (earlier ++ ·) := by
        rw [Grammar.reading_append read, cut.text_eq]
    _ = (extract after).map fun own =>
          earlier ++ own.map (Comment.shift (before.count '\n')) := by
        rw [Grammar.reading_shift, extract_eq_reading cutAfter]
        cases grammar.reading 1 others <;> rfl

/-- An open quote, and one in a comment, do not reach the literal on the next line. -/
theorem extract_continues_lines_after_quotes :
    WholeLines "\" x\n/* a\n*/ y // b\"\n".toList ∧
      extract ("\" x\n/* a\n*/ y // b\"\n".toList ++ "\"//\" // c\n/**/".toList) =
        .ok [⟨" a\n", .lines 2 3⟩, ⟨" b\"", .line 3⟩, ⟨" c", .line 4⟩, ⟨"", .lines 5 5⟩] := by
  have lines : WholeLines "\" x\n/* a\n*/ y // b\"\n".toList := .inr (by decide)
  have front : extract "\" x\n/* a\n*/ y // b\"\n".toList =
      .ok [⟨" a\n", .lines 2 3⟩, ⟨" b\"", .line 3⟩] := by decide
  have behind : extract "\"//\" // c\n/**/".toList =
      .ok [⟨" c", .line 1⟩, ⟨"", .lines 2 2⟩] := by decide
  exact ⟨lines, (extract_continues_lines _ _ _ lines front).2 _ behind⟩

end Segment

namespace Automaton

/-- In code the lines noted for an earlier block comment have no part in what follows. -/
theorem finish_resumed {before : List Char} (outside : (run before).mode = .code)
    (after : List Char) (first last : Nat) :
    (after.foldl feed { run before with blockStart := first, blockEnd := last }).finish =
      extract (before ++ after) := by
  obtain ⟨lexemes, cut⟩ := Grammar.decomposition_exists Lexeme.lawful after
  rw [extract_foldl, finish_from_code outside cut first last]
  exact (finish_from_code outside cut (run before).blockStart (run before).blockEnd).symm

/-- Where a text leaves the automaton in code, it can be read through, and what follows gives
its own comments, moved by the newlines in front of it. Nothing else of the text read before
has a part in them: no text is held back, and the lines noted for an earlier block comment
could be any others. -/
theorem extract_continues_code (before : List Char) (outside : (run before).mode = .code) :
    ∃ earlier, extract before = .ok earlier ∧ (run before).buffer = "" ∧ ∀ after,
      (extract (before ++ after) = .error .blockComment ↔
        extract after = .error .blockComment) ∧
      (∀ own, extract after = .ok own →
        extract (before ++ after) =
          .ok (earlier ++ own.map (Comment.shift (before.count '\n')))) ∧
      ∀ first last,
        (after.foldl feed { run before with blockStart := first, blockEnd := last }).finish =
          extract (before ++ after) := by
  obtain ⟨earlier, read, appended⟩ := extract_append outside
  have clear := (tracks_run before).clear (by rw [outside]; rfl)
  refine ⟨earlier, read, clear, fun after => ?_⟩
  obtain ⟨fails, succeeds⟩ := Extracted.outcomes_of_map (appended after)
  exact ⟨fails, succeeds, finish_resumed outside after⟩

/-- The front ends with a block comment behind a literal with an escaped quote. -/
theorem extract_continues_code_after_block :
    (run "'\\''//a\n/* b\n**/".toList).mode = .code ∧
      extract ("'\\''//a\n/* b\n**/".toList ++ "/ \"\\\n//\"// c".toList) =
        .ok [⟨"a", .line 1⟩, ⟨" b\n*", .lines 2 3⟩, ⟨" c", .line 4⟩] := by
  have outside : (run "'\\''//a\n/* b\n**/".toList).mode = .code := by decide
  have front : extract "'\\''//a\n/* b\n**/".toList =
      .ok [⟨"a", .line 1⟩, ⟨" b\n*", .lines 2 3⟩] := by decide
  have behind : extract "/ \"\\\n//\"// c".toList = .ok [⟨" c", .line 2⟩] := by decide
  obtain ⟨earlier, read, -, continued⟩ := extract_continues_code _ outside
  obtain rfl := Except.ok.inj (read.symm.trans front)
  exact ⟨outside, (continued _).2.1 _ behind⟩

end Automaton

end SourceComments
