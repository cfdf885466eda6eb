import SourceComments.Proofs.Placement

/-! Comments written back.

A line comment can be written with any content that has no newline, and a block comment with
any content that has no closer. Written one after another, each with a newline behind it, such
comments are read again as they were, whatever quotes, slashes and stars they hold. What is
extracted from a text has these contents, so it can be written back and read again in either
family of languages. -/

namespace SourceComments

/-- The contents that a comment of this kind can have. -/
def Writable : String × Bool → Prop
  | (content, false) => '\n' ∉ content.toList
  | (content, true) => ¬closer <:+: content.toList

instance : DecidablePred Writable
  | (content, false) => inferInstanceAs (Decidable ('\n' ∉ content.toList))
  | (content, true) => inferInstanceAs (Decidable ¬closer <:+: content.toList)

/-- A comment between its delimiters, and the newline behind it. -/
def writtenLine : String × Bool → List Char
  | (content, false) => '/' :: '/' :: content.toList ++ ['\n']
  | (content, true) => '/' :: '*' :: content.toList ++ ['*', '/', '\n']

/-- The text that has these comments and nothing else in it. -/
def rendering (records : List (String × Bool)) : String :=
  String.ofList (records.flatMap writtenLine)

theorem toList_rendering (records : List (String × Bool)) :
    (rendering records).toList = records.flatMap writtenLine :=
  String.toList_ofList

namespace Grammar

variable {Piece : Type} {grammar : Grammar Piece}

/-- A block comment holds no closer, and every comment that can be written is cut from its
own lines, whatever follows them. -/
structure Rereads (grammar : Grammar Piece) : Prop where
  nearest : ∀ {piece body rest}, grammar.role piece = .blockComment body →
    grammar.Stands piece rest → ¬closer <:+: body
  written : ∀ record, Writable record → ∃ pieces,
    (∀ {rest later}, grammar.Decomposes rest later →
      grammar.Decomposes (writtenLine record ++ rest) (pieces ++ later)) ∧
    ∀ line, ∃ comment : Comment, grammar.reading line pieces = .ok [comment] ∧
      comment.record = record ∧ comment.firstLine = line

/-- Comments written one after another are read in the same order, each on the line that the
newlines before it count. -/
theorem Rereads.reading_written (rereads : grammar.Rereads) {records : List (String × Bool)}
    (writable : ∀ record ∈ records, Writable record) (line : Nat) :
    ∃ pieces comments, grammar.Decomposes (records.flatMap writtenLine) pieces ∧
      grammar.reading line pieces = .ok comments ∧ comments.map Comment.record = records ∧
      ∀ position comment, comments[position]? = some comment →
        comment.firstLine = line + ((records.take position).flatMap writtenLine).count '\n' := by
  induction records generalizing line with
  | nil => exact ⟨[], [], .done, rfl, rfl, by simp⟩
  | cons record records ih =>
      obtain ⟨here, onward⟩ := List.forall_mem_cons.mp writable
      obtain ⟨pieces, cut, read⟩ := rereads.written record here
      obtain ⟨first, readFirst, sameFirst, starts⟩ := read line
      obtain ⟨later, comments, cutLater, readLater, same, startsLater⟩ :=
        ih onward (line + (writtenLine record).count '\n')
      have text : pieces.flatMap grammar.text = writtenLine record := by
        have alone := (cut .done).text_eq
        rwa [List.append_nil, List.append_nil] at alone
      refine ⟨pieces ++ later, first :: comments, cut cutLater, ?_, ?_, ?_⟩
      · rw [reading_append readFirst, text, readLater]
        rfl
      · rw [List.map_cons, sameFirst, same]
      · intro position comment found
        cases position with
        | zero =>
            obtain rfl : first = comment := by simpa using found
            simpa using starts
        | succ position =>
            rw [startsLater position comment (by simpa using found), List.take_succ_cons,
              List.flatMap_cons, List.count_append, Nat.add_assoc]

/-- What a piece gives to a reader can be written back. -/
theorem Rereads.writable_of_decomposes (rereads : grammar.Rereads) (laws : grammar.Lawful)
    {text : List Char} {pieces : List Piece} (cut : grammar.Decomposes text pieces) :
    ∀ piece ∈ pieces, ∀ record, (grammar.role piece).record? = some record → Writable record := by
  induction cut with
  | done => simp
  | @piece first rest later stands _ ih =>
      refine List.forall_mem_cons.mpr ⟨?_, ih⟩
      intro record given
      cases role : grammar.role first with
      | plain => simp [role, Role.record?] at given
      | lineComment body =>
          obtain rfl : (String.ofList body, false) = record := by
            simpa [role, Role.record?] using given
          simpa [Writable] using (laws.line role stands).1
      | blockComment body =>
          obtain rfl : (String.ofList body, true) = record := by
            simpa [role, Role.record?] using given
          simpa [Writable] using rereads.nearest role stands
      | unclosed => simp [role, Role.record?] at given

end Grammar

namespace Segment

theorem newline_stands (rest : List Char) : (code '\n').Stands rest := by
  simp [Stands, OpensComment]

theorem rereads : grammar.Rereads where
  nearest {segment body rest} role stands := by
    cases segment with
    | blockComment inner =>
        obtain rfl : inner = body := by simpa [Segment.role] using role
        exact (nearestCloser_iff inner).mp stands
    | _ => simp [Segment.role] at role
  written := by
    rintro ⟨content, kind⟩ writable
    cases kind with
    | false =>
        refine ⟨[lineComment content.toList, code '\n'], ?_, ?_⟩
        · intro rest later cut
          have stands : grammar.Stands (lineComment content.toList)
              (grammar.text (code '\n') ++ rest) := ⟨writable, .inr rfl⟩
          have whole := Grammar.Decomposes.piece stands (.piece (newline_stands rest) cut)
          simpa [writtenLine, Segment.text] using whole
        · intro line
          exact ⟨⟨content, .line line⟩, by simp [Grammar.reading, Segment.role, Except.map], rfl,
            rfl⟩
    | true =>
        refine ⟨[blockComment content.toList, code '\n'], ?_, ?_⟩
        · intro rest later cut
          have stands : grammar.Stands (blockComment content.toList)
              (grammar.text (code '\n') ++ rest) := (nearestCloser_iff _).mpr writable
          have whole := Grammar.Decomposes.piece stands (.piece (newline_stands rest) cut)
          simpa [writtenLine, Segment.text] using whole
        · intro line
          exact ⟨⟨content, .lines line (line + content.toList.count '\n')⟩,
            by simp [Grammar.reading, Segment.role, Except.map], rfl, rfl⟩

end Segment

namespace Lexeme

theorem rereads : grammar.Rereads where
  nearest {lexeme body rest} role stands := by
    cases lexeme with
    | blockComment inner =>
        obtain rfl : inner = body := by simpa [Lexeme.role] using role
        exact (nearestCloser_iff inner).mp stands
    | _ => simp [Lexeme.role] at role
  written := by
    rintro ⟨content, kind⟩ writable
    cases kind with
    | false =>
        refine ⟨[lineComment content.toList true], ?_, ?_⟩
        · intro rest later cut
          have whole := decomposes_cons (lineComment content.toList true)
            ⟨writable, .inl rfl⟩ cut
          simpa [writtenLine, Lexeme.text] using whole
        · intro line
          exact ⟨⟨content, .line line⟩, by simp [Grammar.reading, Lexeme.role, Except.map], rfl,
            rfl⟩
    | true =>
        refine ⟨[blockComment content.toList, code '\n'], ?_, ?_⟩
        · intro rest later cut
          have newline : (code '\n').Stands rest := by simp [Stands]
          have whole := decomposes_cons (blockComment content.toList)
            ((nearestCloser_iff _).mpr writable) (decomposes_cons (code '\n') newline cut)
          simpa [writtenLine, Lexeme.text] using whole
        · intro line
          exact ⟨⟨content, .lines line (line + content.toList.count '\n')⟩,
            by simp [Grammar.reading, Lexeme.role, Except.map], rfl, rfl⟩

end Lexeme

namespace Family

theorem rereads (family : Family) : family.grammar.Rereads := by
  cases family with
  | cFamily => exact Segment.rereads
  | javaScript => exact Lexeme.rereads

theorem extract_written (family : Family) {records : List (String × Bool)}
    (writable : ∀ record ∈ records, Writable record) :
    ∃ comments, family.extract (rendering records) = .ok comments ∧
      comments.map Comment.record = records ∧
      ∀ position comment, comments[position]? = some comment →
        comment.firstLine = 1 + (rendering (records.take position)).toList.count '\n' := by
  obtain ⟨pieces, comments, cut, read, same, starts⟩ :=
    family.rereads.reading_written writable 1
  rw [← toList_rendering] at cut
  refine ⟨comments, (family.extract_eq_reading cut).trans read, same, ?_⟩
  intro position comment found
  rw [starts position comment found, toList_rendering]

theorem writable_of_extract (family : Family) {text : String} {comments : List Comment}
    (extracted : family.extract text = .ok comments) :
    ∀ record ∈ comments.map Comment.record, Writable record := by
  obtain ⟨pieces, cut⟩ := Grammar.decomposition_exists family.lawful text.toList
  rw [family.extract_eq_reading cut] at extracted
  rw [Grammar.reading_records extracted]
  intro record member
  obtain ⟨piece, among, given⟩ := List.mem_filterMap.mp member
  exact family.rereads.writable_of_decomposes family.lawful cut piece among record given

/-- Comments that can be written are read again from their own text: the same contents and
kinds in the same order, each starting on the line that the newlines before it count. What is
extracted from any text can be written, and either family reads it again. -/
theorem extract_rendering (family : Family) :
    (∀ records : List (String × Bool), (∀ record ∈ records, Writable record) →
      ∃ comments, family.extract (rendering records) = .ok comments ∧
        comments.map Comment.record = records ∧
        ∀ position comment, comments[position]? = some comment →
          comment.firstLine = 1 + (rendering (records.take position)).toList.count '\n') ∧
    ∀ text comments, family.extract text = .ok comments →
      (∀ comment ∈ comments, Writable comment.record) ∧
      ∀ other : Family, ∃ again,
        other.extract (rendering (comments.map Comment.record)) = .ok again ∧
        again.map Comment.record = comments.map Comment.record := by
  refine ⟨fun records writable => family.extract_written writable, ?_⟩
  intro text comments extracted
  have writable := family.writable_of_extract extracted
  refine ⟨List.forall_mem_map.mp writable, fun other => ?_⟩
  obtain ⟨again, read, same, -⟩ := other.extract_written writable
  exact ⟨again, read, same⟩

/-- Contents with quotes, escapes, markers and stars, among them a closer in a line comment and
a newline in a block comment. -/
def marked : List (String × Bool) :=
  [("\"*/'\\", false), ("/ //\n'/**", true), ("", true), ("", false)]

theorem extract_rendering_of_marked :
    (∀ record ∈ marked, Writable record) ∧
      (∃ comments, javaScript.extract (rendering marked) = .ok comments ∧
        comments.map Comment.record = marked) ∧
      cFamily.extract "a/\"//\"// b\n/*/**/" = .ok [⟨" b", .line 1⟩, ⟨"/*", .lines 2 2⟩] ∧
      ∃ again, javaScript.extract (rendering [(" b", false), ("/*", true)]) = .ok again ∧
        again.map Comment.record = [(" b", false), ("/*", true)] := by
  have writable : ∀ record ∈ marked, Writable record := by decide
  have extracted : cFamily.extract "a/\"//\"// b\n/*/**/" =
      .ok [⟨" b", .line 1⟩, ⟨"/*", .lines 2 2⟩] := by decide
  obtain ⟨comments, read, same, -⟩ := (extract_rendering javaScript).1 marked writable
  exact ⟨writable, ⟨comments, read, same⟩, extracted,
    ((extract_rendering cFamily).2 _ _ extracted).2 javaScript⟩

end Family

end SourceComments
