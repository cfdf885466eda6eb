import SourceComments.Proofs.Placement

/-! Unclosed comments, closed at the end of the text.

A text fails by one block comment that reaches to its end. The pieces in front of that
comment stay where they are whether the text stops before its opener, goes on to the end
unclosed, or is closed there: no piece needs the text behind it, and a closer has no
character that one of them waits for. So a closer at the end turns the failure into one
more comment, whose content is everything behind the opener. -/

namespace SourceComments

namespace Grammar

variable {Piece : Type} {grammar : Grammar Piece}

/-- A piece needs no text behind it, a closer at the end of that text makes no difference,
and an unclosed comment may be exchanged for a closed one of the same body. -/
structure Closable (grammar : Grammar Piece) : Prop where
  shorter : ∀ {piece rest after}, grammar.Stands piece (rest ++ after) → grammar.Stands piece rest
  longer : ∀ {piece rest}, grammar.Stands piece rest → rest ≠ [] →
    grammar.Stands piece (rest ++ closer)
  closed : ∀ {piece rest}, grammar.role piece = .unclosed → grammar.Stands piece rest →
    ∃ body whole, grammar.text piece = '/' :: '*' :: body ∧
      grammar.role whole = .blockComment body ∧ ∀ after, grammar.Stands whole after

/-- Nothing follows the last piece. -/
theorem Decomposes.last_stands {text : List Char} {before : List Piece} {last : Piece}
    (cut : grammar.Decomposes text (before ++ [last])) : grammar.Stands last [] := by
  induction before generalizing text with
  | nil =>
      rw [List.nil_append] at cut
      cases cut with
      | piece stands cut =>
          cases cut
          exact stands
  | cons first before ih =>
      rw [List.cons_append] at cut
      cases cut with
      | piece _ cut => exact ih cut

/-- The pieces in front stand by themselves. -/
theorem Closable.front (closable : grammar.Closable) {text : List Char} {before later : List Piece}
    (cut : grammar.Decomposes text (before ++ later)) :
    grammar.Decomposes (before.flatMap grammar.text) before := by
  induction before generalizing text with
  | nil => exact .done
  | cons first before ih =>
      rw [List.cons_append] at cut
      cases cut with
      | piece stands cut =>
          rw [← cut.text_eq, List.flatMap_append] at stands
          exact .piece (closable.shorter stands) (ih cut)

/-- Another last piece takes the place of the one that a closer extends. -/
theorem Closable.exchange (closable : grammar.Closable) (laws : grammar.Lawful) {text : List Char}
    {before : List Piece} {last whole : Piece} (cut : grammar.Decomposes text (before ++ [last]))
    (extended : grammar.text whole = grammar.text last ++ closer)
    (stands : grammar.Stands whole []) :
    grammar.Decomposes (text ++ closer) (before ++ [whole]) := by
  induction before generalizing text with
  | nil =>
      have written := cut.text_eq
      rw [List.nil_append, List.flatMap_singleton] at written
      have alone : grammar.Decomposes (grammar.text whole ++ []) [whole] := .piece stands .done
      rwa [List.append_nil, extended, written] at alone
  | cons first before ih =>
      cases cut with
      | @piece _ rest _ standsFirst cut =>
          have nonempty : rest ≠ [] := by
            rintro rfl
            have none := cut.unique laws .done
            simp at none
          rw [List.append_assoc]
          exact .piece (closable.longer standsFirst nonempty) (ih cut)

/-- Only the last piece can be an unclosed comment. -/
theorem closed_before_last (laws : grammar.Lawful) {text : List Char} {before : List Piece}
    {last : Piece} (cut : grammar.Decomposes text (before ++ [last])) :
    ∀ piece ∈ before, grammar.role piece ≠ .unclosed := by
  induction before generalizing text with
  | nil => simp
  | cons first before ih =>
      cases cut with
      | piece stands cut =>
          refine List.forall_mem_cons.mpr ⟨?_, ih cut⟩
          intro role
          obtain rfl := laws.unclosed role stands
          have none := cut.unique laws .done
          simp at none

theorem reading_of_closed (laws : grammar.Lawful) {text : List Char} {pieces : List Piece}
    (cut : grammar.Decomposes text pieces)
    (closed : ∀ piece ∈ pieces, grammar.role piece ≠ .unclosed) (line : Nat) :
    ∃ comments, grammar.reading line pieces = .ok comments := by
  rcases (reading_outcome laws cut line).2 with ⟨last, final, role⟩ | ⟨comments, read, -⟩
  · exact absurd role (closed last (List.mem_of_getLast? final))
  · exact ⟨comments, read⟩

/-- Where the pieces of a text fail, the text is what can be read through, an opener and
the rest. With a closer behind it the rest is the content of a comment that ends on the last
line. -/
theorem Closable.reading_closed (closable : grammar.Closable) (laws : grammar.Lawful)
    {text : List Char} {pieces : List Piece} (cut : grammar.Decomposes text pieces)
    (failed : grammar.reading 1 pieces = .error .blockComment) :
    ∃ before body whole earlier first,
      text = before.flatMap grammar.text ++ '/' :: '*' :: body ∧
      grammar.Decomposes (before.flatMap grammar.text) before ∧
      grammar.reading 1 before = .ok earlier ∧
      grammar.Decomposes (text ++ closer) (before ++ [whole]) ∧
      grammar.reading 1 (before ++ [whole]) =
        .ok (earlier ++ [⟨String.ofList body, .lines first (1 + text.count '\n')⟩]) := by
  obtain ⟨last, final, role⟩ := (reading_eq_error laws cut 1).mp failed
  obtain ⟨before, rfl⟩ := List.getLast?_eq_some_iff.mp final
  obtain ⟨body, whole, written, roleWhole, standsWhole⟩ := closable.closed role cut.last_stands
  have split : text = before.flatMap grammar.text ++ '/' :: '*' :: body := by
    rw [← cut.text_eq, List.flatMap_append, List.flatMap_singleton, written]
  have extended : grammar.text whole = grammar.text last ++ closer := by
    rw [laws.block roleWhole, written]
    rfl
  have front := closable.front cut
  obtain ⟨earlier, read⟩ := reading_of_closed laws front (closed_before_last laws cut) 1
  have count : text.count '\n' = (before.flatMap grammar.text).count '\n' + body.count '\n' := by
    rw [split]
    simp
  refine ⟨before, body, whole, earlier, 1 + (before.flatMap grammar.text).count '\n', split,
    front, read, closable.exchange laws cut extended (standsWhole []), ?_⟩
  rw [reading_append read, reading_blockComment _ [] roleWhole, count, ← Nat.add_assoc]
  rfl

end Grammar

namespace Segment

/-- A closer has no quote in it. -/
theorem closesOnLine_append_closer {rest : List Char} (closes : ClosesOnLine (rest ++ closer)) :
    ClosesOnLine rest := by
  rcases closesOnLine_append.mp closes with here | ⟨-, -, body, beyond, split, -⟩
  · exact here
  · have quote : '"' ∈ closer := by
      rw [split]
      simp
    exact absurd quote (by decide)

theorem stands_shorter {segment : Segment} {rest after : List Char}
    (stands : segment.Stands (rest ++ after)) : segment.Stands rest := by
  cases segment with
  | code char =>
      obtain ⟨unquoted, silent⟩ := stands
      refine ⟨?_, ?_⟩
      · rintro ⟨quote, closes⟩
        exact unquoted ⟨quote, closesOnLine_append.mpr (.inl closes)⟩
      · rintro ⟨slash, opens⟩
        refine silent ⟨slash, ?_⟩
        rcases opens with head | head
        · exact .inl (by rw [List.head?_append, head]; rfl)
        · exact .inr (by rw [List.head?_append, head]; rfl)
  | literal body => exact stands
  | lineComment body =>
      obtain ⟨inside, boundary⟩ := stands
      refine ⟨inside, ?_⟩
      cases rest with
      | nil => exact .inl rfl
      | cons char rest => exact .inr (by simpa using boundary)
  | blockComment body => exact stands
  | unclosed body => exact ⟨stands.1, (List.append_eq_nil_iff.mp stands.2).1⟩

theorem stands_longer {segment : Segment} {rest : List Char} (stands : segment.Stands rest)
    (nonempty : rest ≠ []) : segment.Stands (rest ++ closer) := by
  have head : (rest ++ closer).head? = rest.head? := List.head?_append_of_ne_nil rest nonempty
  cases segment with
  | code char =>
      obtain ⟨unquoted, silent⟩ := stands
      refine ⟨?_, ?_⟩
      · rintro ⟨quote, closes⟩
        exact unquoted ⟨quote, closesOnLine_append_closer closes⟩
      · rw [OpensComment, head]
        exact silent
  | literal body => exact stands
  | lineComment body =>
      obtain ⟨inside, boundary⟩ := stands
      exact ⟨inside, .inr (head.trans (boundary.resolve_left nonempty))⟩
  | blockComment body => exact stands
  | unclosed body => exact absurd stands.2 nonempty

theorem closable : grammar.Closable where
  shorter := stands_shorter
  longer := stands_longer
  closed {segment rest} role stands := by
    cases segment with
    | unclosed body =>
        exact ⟨body, blockComment body, rfl, rfl, fun _ => (nearestCloser_iff body).mpr stands.1⟩
    | _ => simp [Segment.role] at role

end Segment

namespace Lexeme

theorem stands_shorter {lexeme : Lexeme} {rest after : List Char}
    (stands : lexeme.Stands (rest ++ after)) : lexeme.Stands rest := by
  have ended (finished : rest ++ after = []) : rest = [] := (List.append_eq_nil_iff.mp finished).1
  cases lexeme with
  | code char => exact stands
  | slash next =>
      cases next with
      | none => exact ended stands
      | some next => exact stands
  | literal quote items ending => exact ⟨stands.1, stands.2.1, stands.2.2.imp_right ended⟩
  | lineComment body newline => exact ⟨stands.1, stands.2.imp_right ended⟩
  | blockComment body => exact stands
  | unclosed body => exact ⟨stands.1, ended stands.2⟩

/-- A lexeme that is not the last is complete, and so stands in front of any text. -/
theorem stands_longer {lexeme : Lexeme} {rest : List Char} (stands : lexeme.Stands rest)
    (nonempty : rest ≠ []) (other : List Char) : lexeme.Stands other := by
  cases lexeme with
  | code char => exact stands
  | slash next =>
      cases next with
      | none => exact absurd stands nonempty
      | some next => exact stands
  | literal quote items ending =>
      exact ⟨stands.1, stands.2.1, .inl (stands.2.2.resolve_right nonempty)⟩
  | lineComment body newline => exact ⟨stands.1, .inl (stands.2.resolve_right nonempty)⟩
  | blockComment body => exact stands
  | unclosed body => exact absurd stands.2 nonempty

theorem closable : grammar.Closable where
  shorter := stands_shorter
  longer stands nonempty := stands_longer stands nonempty _
  closed {lexeme rest} role stands := by
    cases lexeme with
    | unclosed body =>
        exact ⟨body, blockComment body, rfl, rfl, fun _ => (nearestCloser_iff body).mpr stands.1⟩
    | _ => simp [Lexeme.role] at role

end Lexeme

theorem Family.closable (family : Family) : family.grammar.Closable := by
  cases family with
  | cFamily => exact Segment.closable
  | javaScript => exact Lexeme.closable

namespace Language

/-- A text that fails can be read once it is closed at its end. It gives what stands in front
of the last opener, and one more comment with everything behind that opener as its content,
which ends on the last line of the text. -/
theorem extract_append_closer (language : Language) (text : String) (reason : Unterminated)
    (failed : language.extract text = .error reason) :
    ∃ before earlier comment,
      language.extract (text ++ "*/") = .ok (earlier ++ [comment]) ∧
      comment.isMultiline = true ∧
      text = before ++ "/*" ++ comment.content ∧
      language.extract before = .ok earlier ∧
      comment.lastLine = (LineIndex.ofString text).lineCount := by
  have laws := language.family.lawful
  obtain ⟨pieces, cut⟩ := Grammar.decomposition_exists laws text.toList
  rw [extract, language.family.extract_eq_reading cut] at failed
  obtain ⟨before, body, whole, earlier, first, split, front, read, closed, readClosed⟩ :=
    language.family.closable.reading_closed laws cut failed
  refine ⟨String.ofList (before.flatMap language.family.grammar.text), earlier,
    ⟨String.ofList body, .lines first (1 + text.toList.count '\n')⟩, ?_, rfl, ?_, ?_, ?_⟩
  · rw [extract, language.family.extract_eq_reading, readClosed]
    rw [String.toList_append]
    exact closed
  · rw [← String.toList_inj, split]
    simp
  · rw [extract, language.family.extract_eq_reading, read]
    rw [String.toList_ofList]
    exact front
  · rw [LineIndex.ofString, LineIndex.lineCount_ofChars]
    rfl

/-- The open comment starts with a slash and ends with stars, and the literal in front of it
holds an opener. -/
theorem extract_append_closer_after_stars :
    java.extract "// a\n\"/*\" /*/ b\n**" = .error .blockComment ∧
      ∃ before earlier comment,
        java.extract ("// a\n\"/*\" /*/ b\n**" ++ "*/") = .ok (earlier ++ [comment]) ∧
        comment.isMultiline = true ∧
        "// a\n\"/*\" /*/ b\n**" = before ++ "/*" ++ comment.content ∧
        java.extract before = .ok earlier ∧
        comment.lastLine = (LineIndex.ofString "// a\n\"/*\" /*/ b\n**").lineCount :=
  ⟨by decide, extract_append_closer java _ .blockComment (by decide)⟩

end Language

end SourceComments
