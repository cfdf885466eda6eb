import SourceComments.Proofs.Closer
import SourceComments.Proofs.Grammar
import SourceComments.Proofs.Lines
import Mathlib.Data.List.TakeWhile

/-! The grammar of delimited regions.

Whether a quote opens a literal depends on the rest of its line, and whether a
block comment closes on the rest of the text. Cutting finds the one decomposition
of every text, and extraction reads the comments off its segments. -/

namespace SourceComments.Segment

/-- A quote closes the literal before the line ends. -/
def ClosesOnLine (rest : List Char) : Prop :=
  ∃ body after, rest = body ++ '"' :: after ∧ '"' ∉ body ∧ '\n' ∉ body

/-- The quote that closes is the first one, and no newline stands before it. -/
theorem closesOnLine_append {rest after : List Char} :
    ClosesOnLine (rest ++ after) ↔
      ClosesOnLine rest ∨ '"' ∉ rest ∧ '\n' ∉ rest ∧ ClosesOnLine after := by
  constructor
  · rintro ⟨body, beyond, split, unquoted, inside⟩
    rcases List.append_eq_append_iff.mp split with ⟨middle, rfl, rfl⟩ | ⟨middle, rfl, behind⟩
    · simp only [List.mem_append, not_or] at unquoted inside
      exact .inr ⟨unquoted.1, inside.1, middle, beyond, rfl, unquoted.2, inside.2⟩
    · cases middle with
      | nil =>
          rw [List.append_nil]
          exact .inr ⟨unquoted, inside, [], beyond, behind.symm, by simp, by simp⟩
      | cons char middle =>
          obtain ⟨rfl, -⟩ := List.cons.inj behind
          exact .inl ⟨body, middle, rfl, unquoted, inside⟩
  · rintro (⟨body, beyond, rfl, clear⟩ | ⟨unquoted, inside, body, beyond, rfl, clear, clean⟩)
    · exact ⟨body, beyond ++ after, by simp, clear⟩
    · exact ⟨rest ++ body, beyond, by simp, by simp [unquoted, clear], by simp [inside, clean]⟩

/-- A character that, with the one after it, starts a comment. -/
def OpensComment (char : Char) (rest : List Char) : Prop :=
  char = '/' ∧ (rest.head? = some '/' ∨ rest.head? = some '*')

def Stands : Segment → List Char → Prop
  | code char, rest => ¬(char = '"' ∧ ClosesOnLine rest) ∧ ¬OpensComment char rest
  | literal body, _ => '"' ∉ body ∧ '\n' ∉ body
  | lineComment body, rest => '\n' ∉ body ∧ (rest = [] ∨ rest.head? = some '\n')
  | blockComment body, _ => NearestCloser body
  | unclosed body, rest => ¬closer <:+: body ∧ rest = []

def role : Segment → Role
  | code _ | literal _ => .plain
  | lineComment body => .lineComment body
  | blockComment body => .blockComment body
  | unclosed _ => .unclosed

def grammar : Grammar Segment where
  text := text
  role := role
  Stands := Stands

@[simp] theorem grammar_text (segment : Segment) : grammar.text segment = segment.text := rfl

@[simp] theorem grammar_role (segment : Segment) : grammar.role segment = segment.role := rfl

theorem literalBody?_eq_some {rest body : List Char} :
    literalBody? rest = some body ↔
      ∃ after, rest = body ++ '"' :: after ∧ '"' ∉ body ∧ '\n' ∉ body := by
  induction rest generalizing body with
  | nil => simp [literalBody?]
  | cons char rest ih =>
      rw [literalBody?]
      split
      · rename_i quote
        subst quote
        cases body with
        | nil => simp
        | cons first body =>
            simp only [Option.some.injEq, reduceCtorEq, List.cons_append, List.cons.injEq,
              List.mem_cons, not_or, false_iff, not_exists]
            rintro after ⟨⟨rfl, -⟩, ⟨absent, -⟩, -⟩
            exact absent rfl
      · rename_i other
        split
        · rename_i newline
          subst newline
          simp only [reduceCtorEq, false_iff, not_exists]
          rintro after ⟨split, -, absent⟩
          cases body with
          | nil => simp at split
          | cons first body => simp_all
        · rename_i inside
          simp only [Option.map_eq_some_iff, ih]
          constructor
          · rintro ⟨inner, ⟨after, rfl, noQuote, noNewline⟩, rfl⟩
            exact ⟨after, rfl, by simp [noQuote, Ne.symm other],
              by simp [noNewline, Ne.symm inside]⟩
          · rintro ⟨after, split, noQuote, noNewline⟩
            cases body with
            | nil => simp_all
            | cons first body =>
                obtain ⟨rfl, rfl⟩ := List.cons.inj split
                exact ⟨body, ⟨after, rfl, by simp_all, by simp_all⟩, rfl⟩

theorem literalBody?_eq_none {rest : List Char} :
    literalBody? rest = none ↔ ¬ClosesOnLine rest := by
  rw [Option.eq_none_iff_forall_ne_some]
  constructor
  · rintro never ⟨body, after, split⟩
    exact never body (literalBody?_eq_some.mpr ⟨after, split⟩)
  · rintro never body found
    obtain ⟨after, split⟩ := literalBody?_eq_some.mp found
    exact never ⟨body, after, split⟩

theorem first_quote_closed {rest body : List Char} (found : literalBody? rest = some body) :
    first '"' rest = literal body := by
  simp [first, found]

theorem first_quote_open {rest : List Char} (missing : literalBody? rest = none) :
    first '"' rest = code '"' := by
  simp [first, missing]

theorem first_block_closed {rest body : List Char} (found : blockBody? rest = some body) :
    first '/' ('*' :: rest) = blockComment body := by
  simp [first, found]

theorem first_block_open {rest : List Char} (missing : blockBody? rest = none) :
    first '/' ('*' :: rest) = unclosed rest := by
  simp [first, missing]

theorem first_code {char : Char} {rest : List Char} (unquoted : char ≠ '"')
    (silent : ¬OpensComment char rest) : first char rest = code char := by
  unfold first
  split
  · exact absurd rfl unquoted
  · exact absurd ⟨rfl, .inl rfl⟩ silent
  · exact absurd ⟨rfl, .inr rfl⟩ silent
  · rfl

theorem lineBody_append {body rest : List Char} (inside : '\n' ∉ body)
    (boundary : rest = [] ∨ rest.head? = some '\n') : lineBody (body ++ rest) = body := by
  have kept : ∀ char ∈ body, decide (char ≠ '\n') = true := by
    intro char member
    simp only [decide_eq_true_eq]
    rintro rfl
    exact inside member
  have stop : rest.takeWhile (· ≠ '\n') = [] := by
    rcases boundary with rfl | newline
    · rfl
    · cases rest with
      | nil => rfl
      | cons char rest =>
          obtain rfl : char = '\n' := by simpa using newline
          simp
  rw [lineBody, List.takeWhile_append_of_pos kept, stop, List.append_nil]

theorem dropWhile_boundary (text : List Char) :
    text.dropWhile (· ≠ '\n') = [] ∨ (text.dropWhile (· ≠ '\n')).head? = some '\n' := by
  have stops := List.head?_dropWhile_not (· ≠ '\n') text
  cases after : text.dropWhile (· ≠ '\n') with
  | nil => exact .inl rfl
  | cons char rest =>
      rw [after] at stops
      exact .inr (by simpa using stops)

theorem lineBody_split (text : List Char) :
    '\n' ∉ lineBody text ∧ ∃ rest, text = lineBody text ++ rest ∧
      (rest = [] ∨ rest.head? = some '\n') := by
  refine ⟨?_, text.dropWhile (· ≠ '\n'), List.takeWhile_append_dropWhile.symm,
    dropWhile_boundary text⟩
  intro member
  simpa using List.mem_takeWhile_imp member

theorem first_stands (char : Char) (rest : List Char) :
    ∃ after, (first char rest).text ++ after = char :: rest ∧ (first char rest).Stands after := by
  by_cases quote : char = '"'
  · subst quote
    cases found : literalBody? rest with
    | none =>
        rw [first_quote_open found]
        refine ⟨rest, rfl, ?_, ?_⟩
        · rintro ⟨-, closes⟩
          exact literalBody?_eq_none.mp found closes
        · simp [OpensComment]
    | some body =>
        rw [first_quote_closed found]
        obtain ⟨after, rfl, inside⟩ := literalBody?_eq_some.mp found
        exact ⟨after, by simp [text], inside⟩
  · by_cases opens : OpensComment char rest
    · obtain ⟨rfl, head⟩ := opens
      cases rest with
      | nil => simp at head
      | cons next rest =>
          simp only [List.head?_cons, Option.some.injEq] at head
          rcases head with rfl | rfl
          · obtain ⟨inside, after, split, boundary⟩ := lineBody_split rest
            exact ⟨after, congrArg ('/' :: '/' :: ·) split.symm, inside, boundary⟩
          · cases found : blockBody? rest with
            | none =>
                rw [first_block_open found]
                exact ⟨[], by simp [text], blockBody?_eq_none.mp found, rfl⟩
            | some body =>
                rw [first_block_closed found]
                obtain ⟨absent, after, rfl⟩ := blockBody?_split found
                exact ⟨after, by simp [text, closer], (nearestCloser_iff body).mpr absent⟩
    · rw [first_code quote opens]
      exact ⟨rest, rfl, fun literal => quote literal.1, opens⟩

theorem first_unique {segment : Segment} {char : Char} {rest after : List Char}
    (stands : segment.Stands after) (split : segment.text ++ after = char :: rest) :
    first char rest = segment := by
  cases segment with
  | code single =>
      obtain ⟨rfl, rfl⟩ := List.cons.inj split
      by_cases quote : single = '"'
      · subst quote
        exact first_quote_open (literalBody?_eq_none.mpr fun closes => stands.1 ⟨rfl, closes⟩)
      · exact first_code quote stands.2
  | literal body =>
      simp only [text, List.cons_append, List.cons.injEq] at split
      obtain ⟨rfl, rfl⟩ := split
      exact first_quote_closed (literalBody?_eq_some.mpr ⟨after, by simp, stands⟩)
  | lineComment body =>
      obtain ⟨rfl, rfl⟩ := List.cons.inj split
      exact congrArg lineComment (lineBody_append stands.1 stands.2)
  | blockComment body =>
      simp only [text, List.cons_append, List.cons.injEq] at split
      obtain ⟨rfl, rfl⟩ := split
      exact first_block_closed (blockBody?_append ((nearestCloser_iff body).mp stands) after)
  | unclosed body =>
      obtain ⟨absent, rfl⟩ := stands
      simp only [text, List.append_nil, List.cons.injEq] at split
      obtain ⟨rfl, rfl⟩ := split
      exact first_block_open (blockBody?_eq_none.mpr absent)

theorem text_ne_nil (segment : Segment) : segment.text ≠ [] := by
  cases segment <;> simp [text]

theorem lawful : grammar.Lawful where
  nonempty := text_ne_nil
  starts char rest := ⟨first char rest, first_stands char rest⟩
  unique := Grammar.unique_of_first text_ne_nil first_unique
  line {piece body rest} role stands := by
    cases piece with
    | lineComment inner =>
        obtain rfl : inner = body := by simpa [Segment.role] using role
        exact ⟨stands.1, .inr ⟨rfl, stands.2⟩⟩
    | _ => simp [Segment.role] at role
  block {piece body} role := by
    cases piece with
    | blockComment inner =>
        obtain rfl : inner = body := by simpa [Segment.role] using role
        rfl
    | _ => simp [Segment.role] at role
  unclosed {piece rest} role stands := by
    cases piece with
    | unclosed inner => exact stands.2
    | _ => simp [Segment.role] at role

theorem cut_append (before after : List Char) :
    cut before.length (before ++ after) = cut 0 after := by
  induction before with
  | nil => rfl
  | cons char before ih => exact ih

theorem ofText_append {segment : Segment} {rest : List Char} (stands : segment.Stands rest) :
    ofText (segment.text ++ rest) = segment :: ofText rest := by
  cases split : segment.text with
  | nil => exact absurd split segment.text_ne_nil
  | cons char tail =>
      have here : first char (tail ++ rest) = segment := first_unique stands (by rw [split]; rfl)
      rw [ofText, List.cons_append, cut, here, split, List.length_cons, Nat.add_sub_cancel,
        cut_append]
      rfl

/-- Cutting finds the decomposition. -/
theorem ofText_eq {text : List Char} {segments : List Segment}
    (decomposed : grammar.Decomposes text segments) : ofText text = segments := by
  induction decomposed with
  | done => rfl
  | piece stands _ ih => exact (ofText_append stands).trans (congrArg _ ih)

theorem comments_eq_reading {text : List Char} {segments : List Segment}
    (decomposed : grammar.Decomposes text segments) (before : List Char) :
    comments (LineIndex.ofChars (before ++ text)) (byteLength before) segments =
      grammar.reading (1 + before.count '\n') segments := by
  induction decomposed generalizing before with
  | done => rfl
  | @piece segment rest later _ _ ih =>
      change comments (LineIndex.ofChars (before ++ (segment.text ++ rest))) _ _ = _
      have later := ih (before ++ segment.text)
      have start := LineIndex.lineOf_byteLength before (segment.text ++ rest)
      have stop := LineIndex.lineOf_byteLength (before ++ segment.text) rest
      rw [List.append_assoc, byteLength_append, List.count_append, ← Nat.add_assoc] at later stop
      rw [comments.eq_def, Grammar.reading]
      dsimp only
      rw [start, stop, later]
      cases segment with
      | code char => rfl
      | literal body => rfl
      | lineComment body => rfl
      | blockComment body =>
          have inside : (blockComment body).text.count '\n' = body.count '\n' := by
            simp [Segment.text]
          rw [grammar_text, inside]
          rfl
      | unclosed body => rfl

theorem extract_eq_reading {text : List Char} {segments : List Segment}
    (decomposed : grammar.Decomposes text segments) :
    extract text = grammar.reading 1 segments := by
  rw [extract, ofText_eq decomposed]
  exact comments_eq_reading decomposed []

theorem endsUnclosed_iff (segments : List Segment) :
    grammar.EndsUnclosed segments ↔ ∃ body, segments.getLast? = some (unclosed body) := by
  apply Grammar.endsUnclosed_iff_getLast
  intro segment
  cases segment <;> simp [role]

end SourceComments.Segment
