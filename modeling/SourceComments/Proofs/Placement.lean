import SourceComments.Language
import SourceComments.Proofs.Automaton.Run

/-! Where comments stand.

The comments of a text stand one after another, each as it is written, and its
lines are those of the place where it starts and of the place where it ends. A line
comment is followed by its newline, so the next comment starts on a later line. -/

namespace SourceComments

/-- The line, counted from one, of the place after the first `offset` characters. -/
def lineAt (text : List Char) (offset : Nat) : Nat := 1 + (text.take offset).count '\n'

theorem lineAt_add (text : List Char) (offset count : Nat) :
    lineAt text (offset + count) =
      lineAt text offset + ((text.drop offset).take count).count '\n' := by
  rw [lineAt, lineAt, List.take_add, List.count_append, Nat.add_assoc]

theorem lineAt_mono (text : List Char) {offset beyond : Nat} (before : offset ≤ beyond) :
    lineAt text offset ≤ lineAt text beyond := by
  obtain ⟨count, rfl⟩ := Nat.exists_eq_add_of_le before
  rw [lineAt_add]
  exact Nat.le_add_right _ _

theorem lineAt_le_lineCount (text : List Char) (offset : Nat) :
    lineAt text offset ≤ (LineIndex.ofChars text).lineCount := by
  rw [lineAt, LineIndex.lineCount_ofChars]
  exact Nat.add_le_add_left ((List.take_sublist offset text).count_le '\n') 1

theorem lineAt_append (before after : List Char) :
    lineAt (before ++ after) before.length = 1 + before.count '\n' := by
  rw [lineAt, List.take_left]

namespace Span

theorem bounds_of_mem_toList {span : Span} {line : Nat} (member : line ∈ span.toList) :
    span.first ≤ line ∧ line ≤ span.last := by
  cases span with
  | line number =>
      obtain rfl := List.mem_singleton.mp member
      exact ⟨Nat.le_refl _, Nat.le_refl _⟩
  | lines first last =>
      have bounds := List.mem_range'_1.mp member
      simp only [Span.first, Span.last]
      omega

theorem toList_ends {span : Span} (order : span.first ≤ span.last) :
    span.toList.head? = some span.first ∧ span.toList.getLast? = some span.last := by
  cases span with
  | line number => exact ⟨rfl, rfl⟩
  | lines first last =>
      simp only [Span.first, Span.last] at order
      rw [toList]
      simp only [List.head?_range', List.getLast?_range', Span.first, Span.last]
      rw [if_neg (by omega), if_neg (by omega)]
      exact ⟨rfl, congrArg some (by omega)⟩

end Span

namespace Comment

/-- The comment between its delimiters. -/
def written (comment : Comment) : List Char :=
  if comment.isMultiline then '/' :: '*' :: comment.content.toList ++ ['*', '/']
  else '/' :: '/' :: comment.content.toList

/-- The lines of a comment that starts after the first `offset` characters. -/
def spanAt (text : List Char) (offset : Nat) (comment : Comment) : Span :=
  if comment.isMultiline then
    .lines (lineAt text offset) (lineAt text offset + comment.content.toList.count '\n')
  else .line (lineAt text offset)

theorem written_line (body : List Char) (line : Nat) :
    written ⟨String.ofList body, .line line⟩ = '/' :: '/' :: body := by
  simp [written, isMultiline, Span.isMultiline]

theorem written_block (body : List Char) (first last : Nat) :
    written ⟨String.ofList body, .lines first last⟩ = '/' :: '*' :: body ++ ['*', '/'] := by
  simp [written, isMultiline, Span.isMultiline]

structure StandsAt (text : List Char) (comment : Comment) (offset : Nat) : Prop where
  occurs : comment.written <+: text.drop offset
  located : comment.span = comment.spanAt text offset
  /-- A line comment is what remains of its line. -/
  ends : comment.isMultiline = false → '\n' ∉ comment.content.toList ∧
    (text.drop (offset + comment.written.length) = [] ∨
      (text.drop (offset + comment.written.length)).head? = some '\n')

theorem written_head (comment : Comment) : comment.written.head? = some '/' := by
  rw [written]
  split <;> rfl

theorem written_count (comment : Comment) :
    comment.written.count '\n' = comment.content.toList.count '\n' := by
  rw [written]
  split <;> simp

theorem standsAt_line (before : List Char) {body after : List Char} (inside : '\n' ∉ body)
    (boundary : after = [] ∨ after.head? = some '\n') :
    StandsAt (before ++ ('/' :: '/' :: body ++ after))
      ⟨String.ofList body, .line (1 + before.count '\n')⟩ before.length where
  occurs := by
    rw [written_line, List.drop_left]
    exact List.prefix_append _ _
  located := by
    rw [spanAt, lineAt_append]
    rfl
  ends _ := by
    rw [written_line, String.toList_ofList, ← List.append_assoc, ← List.length_append,
      List.drop_left]
    exact ⟨inside, boundary⟩

theorem standsAt_block (before body after : List Char) :
    StandsAt (before ++ ('/' :: '*' :: body ++ ['*', '/'] ++ after))
      ⟨String.ofList body, .lines (1 + before.count '\n')
        (1 + before.count '\n' + body.count '\n')⟩ before.length where
  occurs := by
    rw [written_block, List.drop_left]
    exact List.prefix_append _ _
  located := by
    rw [spanAt, lineAt_append, String.toList_ofList]
    rfl
  ends single := by cases single

section

variable {text : List Char} {comment : Comment} {offset : Nat}

theorem StandsAt.firstLine_eq (stands : comment.StandsAt text offset) :
    comment.firstLine = lineAt text offset := by
  rw [firstLine, stands.located, spanAt]
  split <;> rfl

/-- The newlines of a comment lead from its first line to its last. -/
theorem StandsAt.lastLine_eq (stands : comment.StandsAt text offset) :
    comment.lastLine = lineAt text (offset + comment.written.length) := by
  have occurrence := List.prefix_iff_eq_take.mp stands.occurs
  rw [lineAt_add, ← occurrence, written_count, lastLine, stands.located, spanAt]
  split
  · rfl
  · rename_i single
    have inside := (stands.ends (by simpa using single)).1
    rw [List.count_eq_zero.mpr inside]
    rfl

theorem StandsAt.head_eq (stands : comment.StandsAt text offset) :
    (text.drop offset).head? = some '/' := by
  obtain ⟨after, split⟩ := stands.occurs
  rw [← split, List.head?_append, written_head]
  rfl

theorem StandsAt.firstLine_le_lastLine (stands : comment.StandsAt text offset) :
    comment.firstLine ≤ comment.lastLine := by
  rw [stands.firstLine_eq, stands.lastLine_eq]
  exact lineAt_mono text (Nat.le_add_right _ _)

theorem StandsAt.toList_ends (stands : comment.StandsAt text offset) :
    comment.span.toList.head? = some comment.firstLine ∧
      comment.span.toList.getLast? = some comment.lastLine :=
  Span.toList_ends stands.firstLine_le_lastLine

theorem StandsAt.lines_bounded (stands : comment.StandsAt text offset) {line : Nat}
    (lower : comment.firstLine ≤ line) (upper : line ≤ comment.lastLine) :
    1 ≤ line ∧ line ≤ (LineIndex.ofChars text).lineCount := by
  rw [stands.firstLine_eq, lineAt] at lower
  rw [stands.lastLine_eq] at upper
  exact ⟨by omega, Nat.le_trans upper (lineAt_le_lineCount text _)⟩

/-- Between a line comment and the next comment lies the newline that ends it. -/
theorem StandsAt.ordered {next : Comment} {beyond : Nat} (stands : comment.StandsAt text offset)
    (standsLater : next.StandsAt text beyond)
    (apart : offset + comment.written.length ≤ beyond) :
    comment.lastLine ≤ next.firstLine ∧
      (comment.isMultiline = false → comment.lastLine < next.firstLine) := by
  rw [stands.lastLine_eq, standsLater.firstLine_eq]
  refine ⟨lineAt_mono text apart, ?_⟩
  intro single
  obtain ⟨count, rfl⟩ := Nat.exists_eq_add_of_le apart
  have head := standsLater.head_eq
  rw [← List.drop_drop] at head
  rw [lineAt_add text (offset + _)]
  rcases (stands.ends single).2 with finished | newline
  · rw [finished] at head
    simp at head
  · obtain ⟨after, split⟩ := List.head?_eq_some_iff.mp newline
    rw [split] at head ⊢
    -- The next comment starts with a slash, so it starts behind the newline.
    cases count with
    | zero => simp at head
    | succ count => simp

end

end Comment

/-- The comments stand at the offsets, one after another from `position` on. -/
inductive Placed (text : List Char) : Nat → List Comment → List Nat → Prop where
  | none {position : Nat} : Placed text position [] []
  | comment {position offset : Nat} {comment : Comment} {comments : List Comment}
      {offsets : List Nat} (free : position ≤ offset) (stands : comment.StandsAt text offset)
      (later : Placed text (offset + comment.written.length) comments offsets) :
      Placed text position (comment :: comments) (offset :: offsets)

namespace Placed

variable {text : List Char} {position : Nat} {comments : List Comment} {offsets : List Nat}

theorem earlier {sooner : Nat} (placed : Placed text position comments offsets)
    (before : sooner ≤ position) : Placed text sooner comments offsets := by
  cases placed with
  | none => exact .none
  | comment free stands later => exact .comment (Nat.le_trans before free) stands later

theorem stands (placed : Placed text position comments offsets) :
    List.Forall₂ (Comment.StandsAt text) comments offsets := by
  induction placed with
  | none => exact .nil
  | comment _ stands _ ih => exact .cons stands ih

theorem lower (placed : Placed text position comments offsets) :
    ∀ offset ∈ offsets, position ≤ offset := by
  induction placed with
  | none => simp
  | comment free stands later ih =>
      intro offset member
      rcases List.mem_cons.mp member with rfl | member
      · exact free
      · exact Nat.le_trans (Nat.le_add_right_of_le free) (ih offset member)

theorem mem (placed : Placed text position comments offsets) :
    ∀ comment ∈ comments, ∃ offset, position ≤ offset ∧ comment.StandsAt text offset := by
  induction placed with
  | none => simp
  | @comment position offset first comments offsets free stands later ih =>
      intro comment member
      rcases List.mem_cons.mp member with rfl | member
      · exact ⟨offset, free, stands⟩
      · obtain ⟨beyond, past, standsLater⟩ := ih comment member
        exact ⟨beyond, Nat.le_trans (Nat.le_add_right_of_le free) past, standsLater⟩

theorem ascending (placed : Placed text position comments offsets) :
    offsets.Pairwise (· < ·) := by
  induction placed with
  | none => exact .nil
  | @comment position offset first comments offsets free stands later ih =>
      refine .cons ?_ ih
      intro beyond member
      have past := later.lower beyond member
      have nonempty : 0 < first.written.length := by
        rw [List.length_pos_iff]
        intro empty
        have head := first.written_head
        simp [empty] at head
      omega

theorem apart (placed : Placed text position comments offsets) :
    (comments.zip offsets).Pairwise fun earlier later =>
      earlier.2 + earlier.1.written.length ≤ later.2 := by
  induction placed with
  | none => exact .nil
  | comment _ _ later ih =>
      refine .cons ?_ ih
      rintro ⟨next, beyond⟩ member
      exact later.lower beyond (List.of_mem_zip member).2

theorem ordered (placed : Placed text position comments offsets) :
    comments.Pairwise fun earlier later => earlier.lastLine ≤ later.firstLine ∧
      (earlier.isMultiline = false → earlier.lastLine < later.firstLine) := by
  induction placed with
  | none => exact .nil
  | comment _ stands later ih =>
      refine .cons ?_ ih
      intro next member
      obtain ⟨beyond, past, standsLater⟩ := later.mem next member
      exact stands.ordered standsLater past

end Placed

namespace Grammar

variable {Piece : Type} {grammar : Grammar Piece}

/-- Where the comments among the pieces start, counted in characters, when the first
piece starts at `offset`. -/
def commentOffsets (grammar : Grammar Piece) : Nat → List Piece → List Nat
  | _, [] => []
  | offset, piece :: later =>
      let rest := grammar.commentOffsets (offset + (grammar.text piece).length) later
      match grammar.role piece with
      | .lineComment _ | .blockComment _ => offset :: rest
      | .plain | .unclosed => rest

/-- What is read from the pieces stands where the pieces do. -/
theorem reading_placed (laws : grammar.Lawful) {text : List Char} {pieces : List Piece}
    (cut : grammar.Decomposes text pieces) (before : List Char) {comments : List Comment}
    (read : grammar.reading (1 + before.count '\n') pieces = .ok comments) :
    Placed (before ++ text) before.length comments
      (grammar.commentOffsets before.length pieces) := by
  induction cut generalizing before comments with
  | done =>
      obtain rfl : [] = comments := Except.ok.inj read
      exact .none
  | @piece first rest later stands cut ih =>
      have onward {others : List Comment}
          (readLater : grammar.reading (1 + before.count '\n' + (grammar.text first).count '\n')
            later = .ok others) :
          Placed (before ++ (grammar.text first ++ rest))
            (before.length + (grammar.text first).length) others
            (grammar.commentOffsets (before.length + (grammar.text first).length) later) := by
        rw [Nat.add_assoc, ← List.count_append] at readLater
        have placed := ih (before ++ grammar.text first) readLater
        rwa [List.append_assoc, List.length_append] at placed
      cases role : grammar.role first with
      | plain =>
          rw [reading_plain _ later role] at read
          rw [commentOffsets, role]
          exact (onward read).earlier (Nat.le_add_right _ _)
      | lineComment body =>
          rw [reading_lineComment _ later role] at read
          obtain ⟨others, readLater, rfl⟩ := map_eq_ok.mp read
          rw [commentOffsets, role]
          obtain ⟨inside, after, split, boundary, size⟩ := laws.line_split role stands
          refine .comment (Nat.le_refl _) ?_ ((onward readLater).earlier ?_)
          · rw [split]
            exact Comment.standsAt_line before inside boundary
          · rw [Comment.written_line]
            exact Nat.add_le_add_left size _
      | blockComment body =>
          rw [reading_blockComment _ later role] at read
          obtain ⟨others, readLater, rfl⟩ := map_eq_ok.mp read
          rw [commentOffsets, role]
          have shape := laws.block role
          refine .comment (Nat.le_refl _) ?_ ((onward readLater).earlier ?_)
          · rw [shape]
            exact Comment.standsAt_block before body rest
          · exact Nat.le_of_eq (by rw [Comment.written_block, shape])
      | unclosed =>
          rw [reading_unclosed _ later role] at read
          cases read

/-- How the comments of a text stand in it: at the offsets of the comments among its
pieces, apart and in order, on lines of the text that never go back. -/
structure Places (grammar : Grammar Piece) (text : List Char) (pieces : List Piece)
    (comments : List Comment) : Prop where
  cut : ∀ other, grammar.Decomposes text other ↔ other = pieces
  ascending : (grammar.commentOffsets 0 pieces).Pairwise (· < ·)
  stands : List.Forall₂ (Comment.StandsAt text) comments (grammar.commentOffsets 0 pieces)
  apart : (comments.zip (grammar.commentOffsets 0 pieces)).Pairwise fun earlier later =>
    earlier.2 + earlier.1.written.length ≤ later.2
  lines : ∀ comment ∈ comments, comment.span.toList.head? = some comment.firstLine ∧
    comment.span.toList.getLast? = some comment.lastLine ∧
    ∀ line ∈ comment.span.toList, 1 ≤ line ∧ line ≤ (LineIndex.ofChars text).lineCount
  ordered : comments.Pairwise fun earlier later => earlier.lastLine ≤ later.firstLine ∧
    (earlier.isMultiline = false → earlier.lastLine < later.firstLine)

theorem places_of_reading (laws : grammar.Lawful) {text : List Char} {pieces : List Piece}
    {comments : List Comment} (cut : grammar.Decomposes text pieces)
    (read : grammar.reading 1 pieces = .ok comments) : grammar.Places text pieces comments := by
  have placed : Placed text 0 comments (grammar.commentOffsets 0 pieces) :=
    reading_placed laws cut [] read
  refine ⟨cut.only laws, placed.ascending, placed.stands, placed.apart, ?_, placed.ordered⟩
  intro comment member
  obtain ⟨offset, -, stands⟩ := placed.mem comment member
  obtain ⟨head, last⟩ := stands.toList_ends
  refine ⟨head, last, ?_⟩
  intro line inside
  obtain ⟨lower, upper⟩ := Span.bounds_of_mem_toList inside
  exact stands.lines_bounded lower upper

end Grammar

namespace Family

/-- What a text of the family is cut into. -/
def Piece : Family → Type
  | cFamily => Segment
  | javaScript => Lexeme

def grammar : (family : Family) → Grammar family.Piece
  | cFamily => Segment.grammar
  | javaScript => Lexeme.grammar

theorem lawful (family : Family) : family.grammar.Lawful := by
  cases family with
  | cFamily => exact Segment.lawful
  | javaScript => exact Lexeme.lawful

theorem extract_eq_reading (family : Family) {text : String} {pieces : List family.Piece}
    (cut : family.grammar.Decomposes text.toList pieces) :
    family.extract text = family.grammar.reading 1 pieces := by
  cases family with
  | cFamily => exact Segment.extract_eq_reading cut
  | javaScript => exact Automaton.extract_eq_reading cut

end Family

namespace Language

/-- What is extracted from a text stands in it, in the order of the text and on the
lines that its newlines count. -/
theorem extract_places (language : Language) (text : String) (comments : List Comment)
    (extracted : language.extract text = .ok comments) :
    ∃ pieces, language.family.grammar.Places text.toList pieces comments := by
  have laws := language.family.lawful
  obtain ⟨pieces, cut⟩ := Grammar.decomposition_exists laws text.toList
  rw [extract, language.family.extract_eq_reading cut] at extracted
  exact ⟨pieces, Grammar.places_of_reading laws cut extracted⟩

theorem extract_places_after_wide_characters :
    java.extract "é \"//\" /* ü\n**/ x // y\n/**/" =
        .ok [⟨" ü\n*", .lines 1 2⟩, ⟨" y", .line 2⟩, ⟨"", .lines 3 3⟩] ∧
      ∃ pieces, java.family.grammar.Places "é \"//\" /* ü\n**/ x // y\n/**/".toList pieces
        [⟨" ü\n*", .lines 1 2⟩, ⟨" y", .line 2⟩, ⟨"", .lines 3 3⟩] :=
  ⟨by decide, extract_places java _ _ (by decide)⟩

end Language

end SourceComments
