import SourceComments.Proofs.Segment.Grammar

/-! The grammar of escaped literals and comments.

A slash in code takes the next character with it, a literal runs over its escapes
to its own quote or to the end of the text, and a line comment takes the newline
that ends it. So no lexeme depends on what follows it, except that a literal, a
comment or a slash that is cut short is the last. -/

namespace SourceComments

/-- What a literal is made of between its quotes. -/
inductive Item where
  | plain (char : Char)
  | escaped (char : Char)
  deriving DecidableEq, Repr

namespace Item

def text : Item → List Char
  | plain char => [char]
  | escaped char => ['\\', char]

def Fits (quote : Char) : Item → Prop
  | plain char => char ≠ quote ∧ char ≠ '\\'
  | escaped _ => True

end Item

/-- How a literal ends: at its quote, or with the text and perhaps a lone backslash. -/
inductive Ending where
  | closed
  | cut
  | cutEscape
  deriving DecidableEq, Repr

def Ending.text (quote : Char) : Ending → List Char
  | closed => [quote]
  | cut => []
  | cutEscape => ['\\']

inductive Lexeme where
  | code (char : Char)
  | slash (next : Option Char)
  | literal (quote : Char) (items : List Item) (ending : Ending)
  | lineComment (body : List Char) (newline : Bool)
  | blockComment (body : List Char)
  | unclosed (body : List Char)
  deriving DecidableEq, Repr

namespace Lexeme

def text : Lexeme → List Char
  | code char => [char]
  | slash next => '/' :: next.toList
  | literal quote items ending => quote :: (items.flatMap Item.text ++ ending.text quote)
  | lineComment body newline => '/' :: '/' :: body ++ if newline then ['\n'] else []
  | blockComment body => '/' :: '*' :: body ++ ['*', '/']
  | unclosed body => '/' :: '*' :: body

def Stands : Lexeme → List Char → Prop
  | code char, _ => char ≠ '/' ∧ char ≠ '"' ∧ char ≠ '\''
  | slash (some next), _ => next ≠ '/' ∧ next ≠ '*'
  | slash none, rest => rest = []
  | literal quote items ending, rest =>
      (quote = '"' ∨ quote = '\'') ∧ (∀ item ∈ items, item.Fits quote) ∧
        (ending = .closed ∨ rest = [])
  | lineComment body newline, rest => '\n' ∉ body ∧ (newline = true ∨ rest = [])
  | blockComment body, _ => NearestCloser body
  | unclosed body, rest => ¬closer <:+: body ∧ rest = []

def role : Lexeme → Role
  | code _ | slash _ | literal _ _ _ => .plain
  | lineComment body _ => .lineComment body
  | blockComment body => .blockComment body
  | unclosed _ => .unclosed

def grammar : Grammar Lexeme where
  text := text
  role := role
  Stands := Stands

@[simp] theorem grammar_text (lexeme : Lexeme) : grammar.text lexeme = lexeme.text := rfl

@[simp] theorem grammar_role (lexeme : Lexeme) : grammar.role lexeme = lexeme.role := rfl

theorem decomposes_cons (lexeme : Lexeme) {rest : List Char} {later : List Lexeme}
    (stands : lexeme.Stands rest) (cut : grammar.Decomposes rest later) :
    grammar.Decomposes (lexeme.text ++ rest) (lexeme :: later) :=
  .piece stands cut

/-- The items after an opening quote, and how they end. -/
def items (quote : Char) : List Char → List Item × Ending
  | [] => ([], .cut)
  | char :: rest =>
      if char = quote then ([], .closed)
      else if char = '\\' then
        match rest with
        | [] => ([], .cutEscape)
        | next :: rest => (items quote rest).map (.escaped next :: ·) id
      else (items quote rest).map (.plain char :: ·) id

/-- The lexeme at the start of `char :: rest`. -/
def first (char : Char) (rest : List Char) : Lexeme :=
  if char = '"' ∨ char = '\'' then literal char (items char rest).1 (items char rest).2
  else if char = '/' then
    match rest with
    | [] => slash none
    | '/' :: body => lineComment (Segment.lineBody body) (decide ('\n' ∈ body))
    | '*' :: body =>
        match Segment.blockBody? body with
        | some closed => blockComment closed
        | none => unclosed body
    | next :: _ => slash (some next)
  else code char

theorem quote_ordinary {quote : Char} (quoted : quote = '"' ∨ quote = '\'') :
    quote ≠ '\\' ∧ quote ≠ '\n' := by
  rcases quoted with rfl | rfl <;> decide

theorem items_quote (quote : Char) (rest : List Char) :
    items quote (quote :: rest) = ([], .closed) := by
  rw [items.eq_def]
  simp

theorem items_plain {quote char : Char} (fits : (Item.plain char).Fits quote) (rest : List Char) :
    items quote (char :: rest) = (items quote rest).map (.plain char :: ·) id := by
  rw [items.eq_def]
  dsimp only
  rw [if_neg fits.1, if_neg fits.2]

theorem items_escaped {quote : Char} (ordinary : quote ≠ '\\') (char : Char) (rest : List Char) :
    items quote ('\\' :: char :: rest) = (items quote rest).map (.escaped char :: ·) id := by
  rw [items.eq_def]
  dsimp only
  rw [if_neg (Ne.symm ordinary), if_pos rfl]

theorem items_append {quote : Char} {parts : List Item} {ending : Ending} {after : List Char}
    (ordinary : quote ≠ '\\') (fits : ∀ item ∈ parts, item.Fits quote)
    (last : ending = .closed ∨ after = []) :
    items quote (parts.flatMap Item.text ++ (ending.text quote ++ after)) = (parts, ending) := by
  induction parts with
  | nil =>
      cases ending with
      | closed => exact items_quote quote after
      | cut =>
          obtain rfl : after = [] := by simpa using last
          rfl
      | cutEscape =>
          obtain rfl : after = [] := by simpa using last
          simp [Ending.text, items, Ne.symm ordinary]
  | cons item parts ih =>
      have here := fits item List.mem_cons_self
      have later := ih fun other member => fits other (List.mem_cons_of_mem item member)
      rw [List.flatMap_cons, List.append_assoc]
      cases item with
      | plain char =>
          simp only [Item.text, List.cons_append, List.nil_append]
          rw [items_plain here, later]
          rfl
      | escaped char =>
          simp only [Item.text, List.cons_append, List.nil_append]
          rw [items_escaped ordinary, later]
          rfl

theorem items_split (quote : Char) (rest : List Char) :
    (∀ item ∈ (items quote rest).1, item.Fits quote) ∧
      ∃ after, rest = (items quote rest).1.flatMap Item.text ++
          ((items quote rest).2.text quote ++ after) ∧
        ((items quote rest).2 = .closed ∨ after = []) := by
  fun_induction items quote rest with
  | case1 => exact ⟨by simp, [], rfl, .inr rfl⟩
  | case2 rest => exact ⟨by simp, rest, rfl, .inl rfl⟩
  | case3 => exact ⟨by simp, [], rfl, .inr rfl⟩
  | case4 next rest outside ih =>
      obtain ⟨fits, after, split, last⟩ := ih
      refine ⟨?_, after, ?_, last⟩
      · intro item member
        rcases List.mem_cons.mp member with rfl | later
        · trivial
        · exact fits item later
      · exact congrArg ('\\' :: next :: ·) split
  | case5 char rest outside ordinary ih =>
      obtain ⟨fits, after, split, last⟩ := ih
      refine ⟨?_, after, ?_, last⟩
      · intro item member
        rcases List.mem_cons.mp member with rfl | later
        · exact ⟨outside, ordinary⟩
        · exact fits item later
      · exact congrArg (char :: ·) split

theorem first_literal {quote : Char} (quoted : quote = '"' ∨ quote = '\'') (rest : List Char) :
    first quote rest = literal quote (items quote rest).1 (items quote rest).2 :=
  if_pos quoted

theorem first_slash {next : Char} (noSlash : next ≠ '/') (noStar : next ≠ '*') (rest : List Char) :
    first '/' (next :: rest) = slash (some next) := by
  rw [first.eq_def]
  simp only [Char.reduceEq, or_self, if_false, if_true]

theorem first_code {char : Char} (stands : (code char).Stands []) (rest : List Char) :
    first char rest = code char := by
  rw [first.eq_def, if_neg (not_or.mpr stands.2), if_neg stands.1]

theorem first_line (body : List Char) :
    first '/' ('/' :: body) = lineComment (Segment.lineBody body) (decide ('\n' ∈ body)) := rfl

theorem first_block_closed {rest body : List Char} (found : Segment.blockBody? rest = some body) :
    first '/' ('*' :: rest) = blockComment body := by
  simp [first, found]

theorem first_block_open {rest : List Char} (missing : Segment.blockBody? rest = none) :
    first '/' ('*' :: rest) = unclosed rest := by
  simp [first, missing]

theorem first_stands_slash (rest : List Char) :
    ∃ after, (first '/' rest).text ++ after = '/' :: rest ∧ (first '/' rest).Stands after := by
  cases rest with
  | nil => exact ⟨[], rfl, rfl⟩
  | cons next rest =>
      by_cases slash : next = '/'
      · subst slash
        obtain ⟨inside, after, split, boundary⟩ := Segment.lineBody_split rest
        rw [first_line]
        rcases boundary with rfl | newline
        · rw [List.append_nil] at split
          rw [← split] at inside ⊢
          exact ⟨[], by simp [text, inside], inside, .inr rfl⟩
        · obtain ⟨beyond, rfl⟩ := List.head?_eq_some_iff.mp newline
          have ended : '\n' ∈ rest := by
            rw [split]
            simp
          refine ⟨beyond, ?_, inside, .inl (by simpa using ended)⟩
          refine Eq.trans ?_ (congrArg ('/' :: '/' :: ·) split.symm)
          simp [text, ended]
      · by_cases star : next = '*'
        · subst star
          cases found : Segment.blockBody? rest with
          | none =>
              rw [first_block_open found]
              exact ⟨[], by simp [text], Segment.blockBody?_eq_none.mp found, rfl⟩
          | some body =>
              rw [first_block_closed found]
              obtain ⟨absent, after, rfl⟩ := Segment.blockBody?_split found
              exact ⟨after, by simp [text, closer], (nearestCloser_iff body).mpr absent⟩
        · rw [first_slash slash star]
          exact ⟨rest, rfl, slash, star⟩

theorem first_stands (char : Char) (rest : List Char) :
    ∃ after, (first char rest).text ++ after = char :: rest ∧ (first char rest).Stands after := by
  by_cases quoted : char = '"' ∨ char = '\''
  · rw [first_literal quoted]
    obtain ⟨fits, after, split, last⟩ := items_split char rest
    refine ⟨after, ?_, quoted, fits, last⟩
    refine Eq.trans ?_ (congrArg (char :: ·) split.symm)
    simp [text]
  · by_cases slash : char = '/'
    · subst slash
      exact first_stands_slash rest
    · have stands : (code char).Stands [] := ⟨slash, not_or.mp quoted⟩
      rw [first_code stands]
      exact ⟨rest, rfl, stands⟩

theorem first_unique {lexeme : Lexeme} {char : Char} {rest after : List Char}
    (stands : lexeme.Stands after) (split : lexeme.text ++ after = char :: rest) :
    first char rest = lexeme := by
  cases lexeme with
  | code single =>
      obtain ⟨rfl, rfl⟩ := List.cons.inj split
      exact first_code stands _
  | slash next =>
      cases next with
      | none =>
          obtain rfl : after = [] := stands
          obtain ⟨rfl, rfl⟩ := List.cons.inj split
          rfl
      | some next =>
          obtain ⟨rfl, rfl⟩ := List.cons.inj split
          exact first_slash stands.1 stands.2 _
  | literal quote parts ending =>
      simp only [text, List.cons_append, List.append_assoc, List.cons.injEq] at split
      obtain ⟨rfl, rfl⟩ := split
      obtain ⟨quoted, fits, last⟩ := stands
      rw [first_literal quoted, items_append (quote_ordinary quoted).1 fits last]
  | lineComment body newline =>
      obtain ⟨inside, last⟩ := stands
      cases newline with
      | true =>
          simp only [text, if_true, List.cons_append, List.append_assoc, List.nil_append,
            List.cons.injEq] at split
          obtain ⟨rfl, rfl⟩ := split
          rw [first_line, Segment.lineBody_append inside (.inr rfl)]
          simp
      | false =>
          obtain rfl : after = [] := by simpa using last
          simp only [text, Bool.false_eq_true, if_false, List.append_nil, List.cons.injEq] at split
          obtain ⟨rfl, rfl⟩ := split
          have whole := Segment.lineBody_append inside (.inl rfl)
          rw [List.append_nil] at whole
          rw [first_line, whole]
          simp [inside]
  | blockComment body =>
      simp only [text, List.cons_append, List.cons.injEq] at split
      obtain ⟨rfl, rfl⟩ := split
      have absent := (nearestCloser_iff body).mp stands
      exact first_block_closed (Segment.blockBody?_append absent after)
  | unclosed body =>
      obtain ⟨absent, rfl⟩ := stands
      simp only [text, List.append_nil, List.cons.injEq] at split
      obtain ⟨rfl, rfl⟩ := split
      exact first_block_open (Segment.blockBody?_eq_none.mpr absent)

theorem text_ne_nil (lexeme : Lexeme) : lexeme.text ≠ [] := by
  cases lexeme <;> simp [text]

theorem lawful : grammar.Lawful where
  nonempty := text_ne_nil
  starts char rest := ⟨first char rest, first_stands char rest⟩
  unique := Grammar.unique_of_first text_ne_nil first_unique
  line {piece body rest} role stands := by
    cases piece with
    | lineComment inner newline =>
        obtain rfl : inner = body := by simpa [Lexeme.role] using role
        obtain ⟨inside, last⟩ := stands
        refine ⟨inside, ?_⟩
        cases newline with
        | true => exact .inl rfl
        | false => exact .inr ⟨by simp [text], .inl (by simpa using last)⟩
    | _ => simp [Lexeme.role] at role
  block {piece body} role := by
    cases piece with
    | blockComment inner =>
        obtain rfl : inner = body := by simpa [Lexeme.role] using role
        rfl
    | _ => simp [Lexeme.role] at role
  unclosed {piece rest} role stands := by
    cases piece with
    | unclosed inner => exact stands.2
    | _ => simp [Lexeme.role] at role

theorem endsUnclosed_iff (lexemes : List Lexeme) :
    grammar.EndsUnclosed lexemes ↔ ∃ body, lexemes.getLast? = some (unclosed body) := by
  apply Grammar.endsUnclosed_iff_getLast
  intro lexeme
  cases lexeme <;> simp [role]

end Lexeme

end SourceComments
