import SourceComments.Comment
import Mathlib.Data.List.Basic

/-! Grammars of consecutive pieces.

A text is cut into pieces from left to right. Which piece may stand at a place
depends on its own characters and on the text after it. Where every place has
exactly one such piece, every text has exactly one decomposition, and what a
reader of comments gets from the text is a function of the pieces alone. -/

namespace SourceComments

/-- What a piece of text is to a reader of comments. -/
inductive Role where
  | plain
  | lineComment (body : List Char)
  | blockComment (body : List Char)
  | unclosed
  deriving DecidableEq, Repr

/-- The content and the kind of a comment, without its place. -/
def Comment.record (comment : Comment) : String × Bool := (comment.content, comment.isMultiline)

def Role.record? : Role → Option (String × Bool)
  | plain | unclosed => none
  | lineComment body => some (String.ofList body, false)
  | blockComment body => some (String.ofList body, true)

structure Grammar (Piece : Type) where
  text : Piece → List Char
  role : Piece → Role
  /-- Whether the piece may stand where this text follows it. -/
  Stands : Piece → List Char → Prop

namespace Grammar

variable {Piece : Type} {grammar : Grammar Piece}

/-- The text is the pieces one after another, each of them standing at its place. -/
inductive Decomposes (grammar : Grammar Piece) : List Char → List Piece → Prop where
  | done : Decomposes grammar [] []
  | piece {first : Piece} {rest : List Char} {later : List Piece}
      (stands : grammar.Stands first rest) (cut : Decomposes grammar rest later) :
      Decomposes grammar (grammar.text first ++ rest) (first :: later)

def EndsUnclosed (grammar : Grammar Piece) (pieces : List Piece) : Prop :=
  ∃ last, pieces.getLast? = some last ∧ grammar.role last = .unclosed

/-- What the pieces of a text say to a reader of comments, when the first of them
starts on `line`. -/
def reading (grammar : Grammar Piece) : Nat → List Piece → Extracted
  | _, [] => .ok []
  | line, piece :: later =>
      let rest := grammar.reading (line + (grammar.text piece).count '\n') later
      match grammar.role piece with
      | .plain => rest
      | .lineComment body => rest.map (⟨String.ofList body, .line line⟩ :: ·)
      | .blockComment body =>
          rest.map (⟨String.ofList body, .lines line (line + body.count '\n')⟩ :: ·)
      | .unclosed => .error .blockComment

/-- Every place of a text has exactly one piece; comments are written with their
delimiters, a line comment ends with its line, and nothing follows an unclosed
comment. -/
structure Lawful (grammar : Grammar Piece) : Prop where
  nonempty : ∀ piece, grammar.text piece ≠ []
  starts : ∀ char rest, ∃ piece after,
    grammar.text piece ++ after = char :: rest ∧ grammar.Stands piece after
  unique : ∀ {left right after beyond}, grammar.Stands left after → grammar.Stands right beyond →
    grammar.text left ++ after = grammar.text right ++ beyond → left = right
  line : ∀ {piece body rest}, grammar.role piece = .lineComment body → grammar.Stands piece rest →
    '\n' ∉ body ∧ (grammar.text piece = '/' :: '/' :: body ++ ['\n'] ∨
      grammar.text piece = '/' :: '/' :: body ∧ (rest = [] ∨ rest.head? = some '\n'))
  block : ∀ {piece body}, grammar.role piece = .blockComment body →
    grammar.text piece = '/' :: '*' :: body ++ ['*', '/']
  unclosed : ∀ {piece rest}, grammar.role piece = .unclosed → grammar.Stands piece rest → rest = []

/-- Whether or not the piece takes its newline, the comment reaches to the end of its line. -/
theorem Lawful.line_split (laws : grammar.Lawful) {piece : Piece} {body rest : List Char}
    (role : grammar.role piece = .lineComment body) (stands : grammar.Stands piece rest) :
    '\n' ∉ body ∧ ∃ after, grammar.text piece ++ rest = '/' :: '/' :: body ++ after ∧
      (after = [] ∨ after.head? = some '\n') ∧
      ('/' :: '/' :: body).length ≤ (grammar.text piece).length := by
  obtain ⟨inside, taken | ⟨shape, boundary⟩⟩ := laws.line role stands
  · refine ⟨inside, '\n' :: rest, ?_, .inr rfl, ?_⟩
    · rw [taken]
      simp
    · rw [taken]
      simp
  · exact ⟨inside, rest, by rw [shape], boundary, Nat.le_of_eq (by rw [shape])⟩

/-- Where the first piece is a function of the text, no place has two pieces. -/
theorem unique_of_first {first : Char → List Char → Piece}
    (nonempty : ∀ piece, grammar.text piece ≠ [])
    (only : ∀ {piece char rest after}, grammar.Stands piece after →
      grammar.text piece ++ after = char :: rest → first char rest = piece)
    {left right : Piece} {after beyond : List Char} (stands : grammar.Stands left after)
    (standsToo : grammar.Stands right beyond)
    (same : grammar.text left ++ after = grammar.text right ++ beyond) : left = right := by
  cases split : grammar.text left ++ after with
  | nil => exact absurd (List.append_eq_nil_iff.mp split).1 (nonempty left)
  | cons char rest => rw [← only stands split, only standsToo (same.symm.trans split)]

theorem decomposition_exists (laws : grammar.Lawful) (text : List Char) :
    ∃ pieces, grammar.Decomposes text pieces := by
  induction size : text.length using Nat.strongRecOn generalizing text with
  | ind count ih =>
      cases text with
      | nil => exact ⟨[], .done⟩
      | cons char rest =>
          obtain ⟨first, after, split, stands⟩ := laws.starts char rest
          have shorter : after.length < count := by
            have positive := List.length_pos_iff.mpr (laws.nonempty first)
            rw [← size, ← split, List.length_append]
            omega
          obtain ⟨later, cut⟩ := ih after.length shorter after rfl
          rw [← split]
          exact ⟨first :: later, .piece stands cut⟩

theorem Decomposes.unique (laws : grammar.Lawful) {text : List Char}
    {left right : List Piece} (cut : grammar.Decomposes text left)
    (other : grammar.Decomposes text right) : left = right := by
  induction cut generalizing right with
  | done =>
      generalize same : ([] : List Char) = text at other
      cases other with
      | done => rfl
      | piece =>
          have empty := (List.append_eq_nil_iff.mp same.symm).1
          exact absurd empty (laws.nonempty _)
  | @piece first rest later stands cut ih =>
      generalize same : grammar.text first ++ rest = text at other
      cases other with
      | done =>
          have empty := (List.append_eq_nil_iff.mp same).1
          exact absurd empty (laws.nonempty _)
      | piece standsToo cutToo =>
          obtain rfl := laws.unique stands standsToo same
          have remaining := List.append_cancel_left same
          rw [ih (remaining ▸ cutToo)]

/-- The first piece stands in front of the rest, and the others are cut from the rest. -/
theorem Decomposes.uncons {first : Piece} {rest : List Char} {later : List Piece}
    (cut : grammar.Decomposes (grammar.text first ++ rest) (first :: later)) :
    grammar.Stands first rest ∧ grammar.Decomposes rest later := by
  generalize same : grammar.text first ++ rest = text at cut
  cases cut with
  | piece stands cut =>
      obtain rfl := List.append_cancel_left same
      exact ⟨stands, cut⟩

theorem Decomposes.text_eq {text : List Char} {pieces : List Piece}
    (cut : grammar.Decomposes text pieces) : pieces.flatMap grammar.text = text := by
  induction cut with
  | done => rfl
  | piece _ _ ih => rw [List.flatMap_cons, ih]

theorem Decomposes.only (laws : grammar.Lawful) {text : List Char} {pieces : List Piece}
    (cut : grammar.Decomposes text pieces) (other : List Piece) :
    grammar.Decomposes text other ↔ other = pieces := by
  constructor
  · intro given
    exact given.unique laws cut
  · intro same
    rw [same]
    exact cut

theorem decomposition_unique (laws : grammar.Lawful) (text : List Char) :
    ∃ pieces, ∀ other, grammar.Decomposes text other ↔ other = pieces := by
  obtain ⟨pieces, cut⟩ := decomposition_exists laws text
  exact ⟨pieces, cut.only laws⟩

theorem endsUnclosed_cons {first : Piece} {later : List Piece}
    (closed : grammar.role first ≠ .unclosed) :
    grammar.EndsUnclosed (first :: later) ↔ grammar.EndsUnclosed later := by
  cases later with
  | nil => simp [EndsUnclosed, closed]
  | cons second later => simp only [EndsUnclosed, List.getLast?_cons_cons]

theorem endsUnclosed_iff_getLast {unclosed : List Char → Piece}
    (only : ∀ piece, grammar.role piece = .unclosed ↔ ∃ body, piece = unclosed body)
    (pieces : List Piece) :
    grammar.EndsUnclosed pieces ↔ ∃ body, pieces.getLast? = some (unclosed body) := by
  constructor
  · rintro ⟨piece, final, role⟩
    obtain ⟨body, rfl⟩ := (only piece).mp role
    exact ⟨body, final⟩
  · rintro ⟨body, final⟩
    exact ⟨unclosed body, final, (only _).mpr ⟨body, rfl⟩⟩

theorem map_eq_error {α β : Type} {result : Except Unterminated α} {change : α → β} :
    result.map change = .error .blockComment ↔ result = .error .blockComment := by
  cases result <;> simp [Except.map]

theorem map_eq_ok {α β : Type} {result : Except Unterminated α} {change : α → β} {value : β} :
    result.map change = .ok value ↔ ∃ inner, result = .ok inner ∧ change inner = value := by
  cases result <;> simp [Except.map]

section

variable {piece : Piece} {body : List Char} (line : Nat) (later : List Piece)

theorem reading_plain (role : grammar.role piece = .plain) :
    grammar.reading line (piece :: later) =
      grammar.reading (line + (grammar.text piece).count '\n') later := by
  rw [reading, role]

theorem reading_lineComment (role : grammar.role piece = .lineComment body) :
    grammar.reading line (piece :: later) =
      (grammar.reading (line + (grammar.text piece).count '\n') later).map
        (⟨String.ofList body, .line line⟩ :: ·) := by
  rw [reading, role]

theorem reading_blockComment (role : grammar.role piece = .blockComment body) :
    grammar.reading line (piece :: later) =
      (grammar.reading (line + (grammar.text piece).count '\n') later).map
        (⟨String.ofList body, .lines line (line + body.count '\n')⟩ :: ·) := by
  rw [reading, role]

theorem reading_unclosed (role : grammar.role piece = .unclosed) :
    grammar.reading line (piece :: later) = .error .blockComment := by
  rw [reading, role]

end

/-- Lines in front of the pieces move every comment by as many lines. -/
theorem reading_shift (line count : Nat) (pieces : List Piece) :
    grammar.reading (line + count) pieces =
      (grammar.reading line pieces).map (List.map (Comment.shift count)) := by
  induction pieces generalizing line with
  | nil => rfl
  | cons piece later ih =>
      have onward : grammar.reading (line + count + (grammar.text piece).count '\n') later =
          (grammar.reading (line + (grammar.text piece).count '\n') later).map
            (List.map (Comment.shift count)) := by
        rw [Nat.add_right_comm]
        exact ih _
      cases role : grammar.role piece with
      | plain => rw [reading_plain _ later role, reading_plain _ later role, onward]
      | lineComment body =>
          rw [reading_lineComment _ later role, reading_lineComment _ later role, onward]
          cases grammar.reading (line + (grammar.text piece).count '\n') later <;> rfl
      | blockComment body =>
          have last : line + count + body.count '\n' = line + body.count '\n' + count := by omega
          rw [reading_blockComment _ later role, reading_blockComment _ later role, onward, last]
          cases grammar.reading (line + (grammar.text piece).count '\n') later <;> rfl
      | unclosed =>
          rw [reading_unclosed _ later role, reading_unclosed _ later role]
          rfl

/-- Pieces that say the same from every line may be exchanged behind others. -/
theorem reading_append_congr {left right : List Piece}
    (same : ∀ line, grammar.reading line left = grammar.reading line right) (before : List Piece)
    (line : Nat) :
    grammar.reading line (before ++ left) = grammar.reading line (before ++ right) := by
  induction before generalizing line with
  | nil => exact same line
  | cons piece before ih => rw [List.cons_append, List.cons_append, reading, reading, ih]

/-- Pieces that can be read through hold no unclosed comment. -/
theorem closed_of_reading {line : Nat} {pieces : List Piece} {comments : List Comment}
    (read : grammar.reading line pieces = .ok comments) :
    ∀ piece ∈ pieces, grammar.role piece ≠ .unclosed := by
  induction pieces generalizing line comments with
  | nil => simp
  | cons first later ih =>
      have closed : grammar.role first ≠ .unclosed := by
        intro role
        rw [reading_unclosed line later role] at read
        cases read
      refine List.forall_mem_cons.mpr ⟨closed, ?_⟩
      cases role : grammar.role first with
      | plain =>
          rw [reading_plain line later role] at read
          exact ih read
      | lineComment body =>
          rw [reading_lineComment line later role] at read
          obtain ⟨others, readLater, -⟩ := map_eq_ok.mp read
          exact ih readLater
      | blockComment body =>
          rw [reading_blockComment line later role] at read
          obtain ⟨others, readLater, -⟩ := map_eq_ok.mp read
          exact ih readLater
      | unclosed => exact absurd role closed

/-- Behind pieces that can be read through, the later ones add their own comments. -/
theorem reading_append {line : Nat} {pieces : List Piece} {earlier : List Comment}
    (read : grammar.reading line pieces = .ok earlier) (later : List Piece) :
    grammar.reading line (pieces ++ later) =
      (grammar.reading (line + (pieces.flatMap grammar.text).count '\n') later).map
        (earlier ++ ·) := by
  induction pieces generalizing line earlier with
  | nil =>
      obtain rfl : [] = earlier := Except.ok.inj read
      rw [List.nil_append, List.flatMap_nil, List.count_nil, Nat.add_zero]
      cases grammar.reading line later <;> rfl
  | cons first others ih =>
      rw [List.flatMap_cons, List.count_append, ← Nat.add_assoc, List.cons_append]
      cases role : grammar.role first with
      | plain =>
          rw [reading_plain line others role] at read
          rw [reading_plain line _ role, ih read]
      | lineComment body =>
          rw [reading_lineComment line others role] at read
          obtain ⟨inner, readOthers, rfl⟩ := map_eq_ok.mp read
          rw [reading_lineComment line _ role, ih readOthers]
          cases grammar.reading _ later <;> rfl
      | blockComment body =>
          rw [reading_blockComment line others role] at read
          obtain ⟨inner, readOthers, rfl⟩ := map_eq_ok.mp read
          rw [reading_blockComment line _ role, ih readOthers]
          cases grammar.reading _ later <;> rfl
      | unclosed =>
          rw [reading_unclosed line others role] at read
          cases read

theorem reading_eq_error (laws : grammar.Lawful) {text : List Char}
    {pieces : List Piece} (cut : grammar.Decomposes text pieces) (line : Nat) :
    grammar.reading line pieces = .error .blockComment ↔ grammar.EndsUnclosed pieces := by
  induction cut generalizing line with
  | done => simp [reading, EndsUnclosed]
  | @piece first rest later stands cut ih =>
      cases role : grammar.role first with
      | plain =>
          rw [reading_plain line later role, endsUnclosed_cons (by simp [role])]
          exact ih _
      | lineComment body =>
          rw [reading_lineComment line later role, map_eq_error, endsUnclosed_cons (by simp [role])]
          exact ih _
      | blockComment body =>
          rw [reading_blockComment line later role, map_eq_error,
            endsUnclosed_cons (by simp [role])]
          exact ih _
      | unclosed =>
          obtain rfl := laws.unclosed role stands
          obtain rfl := cut.unique laws .done
          simp [reading_unclosed line [] role, EndsUnclosed, role]

theorem reading_records {line : Nat} {pieces : List Piece} {comments : List Comment}
    (read : grammar.reading line pieces = .ok comments) :
    comments.map Comment.record = pieces.filterMap fun piece => (grammar.role piece).record? := by
  induction pieces generalizing line comments with
  | nil =>
      obtain rfl : [] = comments := Except.ok.inj read
      rfl
  | cons first later ih =>
      cases role : grammar.role first with
      | plain =>
          rw [reading_plain line later role] at read
          simp [role, Role.record?, ih read]
      | lineComment body =>
          rw [reading_lineComment line later role] at read
          obtain ⟨others, readLater, rfl⟩ := map_eq_ok.mp read
          simp [role, Role.record?, ih readLater, Comment.record, Comment.isMultiline,
            Span.isMultiline]
      | blockComment body =>
          rw [reading_blockComment line later role] at read
          obtain ⟨others, readLater, rfl⟩ := map_eq_ok.mp read
          simp [role, Role.record?, ih readLater, Comment.record, Comment.isMultiline,
            Span.isMultiline]
      | unclosed =>
          rw [reading_unclosed line later role] at read
          cases read

/-- An unclosed comment at the end is an error; otherwise the comments are those of
the pieces, in order. -/
theorem reading_outcome (laws : grammar.Lawful) {text : List Char} {pieces : List Piece}
    (cut : grammar.Decomposes text pieces) (line : Nat) :
    (grammar.reading line pieces = .error .blockComment ↔ grammar.EndsUnclosed pieces) ∧
      (grammar.EndsUnclosed pieces ∨ ∃ comments, grammar.reading line pieces = .ok comments ∧
        comments.map Comment.record =
          pieces.filterMap fun piece => (grammar.role piece).record?) := by
  have failing := reading_eq_error laws cut line
  refine ⟨failing, ?_⟩
  cases read : grammar.reading line pieces with
  | error reason =>
      cases reason
      exact .inl (failing.mp read)
  | ok comments => exact .inr ⟨comments, rfl, reading_records read⟩

end Grammar

end SourceComments
