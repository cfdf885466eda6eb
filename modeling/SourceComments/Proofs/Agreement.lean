import SourceComments.Proofs.Automaton.Run

/-! Where the two ways of finding comments agree.

On a text without stray quotes, escapes and a slash before a literal, the segments
of delimited regions regroup into lexemes: a slash takes the code character after it,
and a line comment takes its newline. The regrouped pieces say the same to a reader
of comments, line for line. -/

namespace SourceComments

namespace Segment

/-- No quote stands in code, no literal has a backslash, and no slash in code stands
right before a literal. -/
structure Common (segments : List Segment) : Prop where
  unquoted : ∀ char, code char ∈ segments → char ≠ '"' ∧ char ≠ '\''
  unescaped : ∀ body, literal body ∈ segments → '\\' ∉ body
  apart : ∀ body, ¬[code '/', literal body] <:+: segments

/-- The lexemes that consecutive segments make. -/
def lexemes : List Segment → List Lexeme
  | [] => []
  | code '/' :: code next :: later => .slash (some next) :: lexemes later
  | code '/' :: later => .slash none :: lexemes later
  | code char :: later => .code char :: lexemes later
  | literal body :: later => .literal '"' (body.map .plain) .closed :: lexemes later
  | lineComment body :: code '\n' :: later => .lineComment body true :: lexemes later
  | lineComment body :: later => .lineComment body false :: lexemes later
  | blockComment body :: later => .blockComment body :: lexemes later
  | unclosed body :: later => .unclosed body :: lexemes later

theorem flatMap_plain (body : List Char) : (body.map Item.plain).flatMap Item.text = body := by
  induction body with
  | nil => rfl
  | cons char body ih => exact congrArg (char :: ·) ih

theorem literal_text (body : List Char) :
    (Lexeme.literal '"' (body.map .plain) .closed).text = (literal body).text := by
  rw [Lexeme.text, flatMap_plain]
  rfl

theorem Common.tail {segment : Segment} {later : List Segment}
    (common : Common (segment :: later)) : Common later where
  unquoted char member := common.unquoted char (List.mem_cons_of_mem segment member)
  unescaped body member := common.unescaped body (List.mem_cons_of_mem segment member)
  apart body found := common.apart body (List.infix_cons found)

/-- Regrouping keeps every comment with its lines. -/
theorem reading_lexemes (line : Nat) (segments : List Segment) :
    Lexeme.grammar.reading line (lexemes segments) = grammar.reading line segments := by
  fun_induction lexemes segments generalizing line with
  | case1 => rfl
  | case2 next later ih =>
      have counted : line + (Lexeme.slash (some next)).text.count '\n' =
          line + (code '/').text.count '\n' + (code next).text.count '\n' := by
        simp [Lexeme.text, text]
      rw [Grammar.reading_plain line _ rfl, Grammar.reading_plain line _ rfl,
        Grammar.reading_plain _ later rfl, ih]
      exact congrArg (grammar.reading · later) counted
  | case3 later _ ih =>
      rw [Grammar.reading_plain line _ rfl, Grammar.reading_plain line later rfl, ih]
      rfl
  | case4 char later _ _ ih =>
      rw [Grammar.reading_plain line _ rfl, Grammar.reading_plain line later rfl, ih]
      rfl
  | case5 body later ih =>
      rw [Grammar.reading_plain line _ rfl, Grammar.reading_plain line later rfl, ih,
        Lexeme.grammar_text, literal_text]
      rfl
  | case6 body later ih =>
      have counted : line + (Lexeme.lineComment body true).text.count '\n' =
          line + (lineComment body).text.count '\n' + (code '\n').text.count '\n' := by
        simp [Lexeme.text, text, Nat.add_assoc]
      rw [Grammar.reading_lineComment line _ rfl, Grammar.reading_lineComment line _ rfl,
        Grammar.reading_plain _ later rfl, ih]
      exact congrArg (fun line => (grammar.reading line later).map _) counted
  | case7 body later _ ih =>
      rw [Grammar.reading_lineComment line _ rfl, Grammar.reading_lineComment line later rfl, ih]
      simp [Lexeme.text, text]
  | case8 body later ih =>
      rw [Grammar.reading_blockComment line _ rfl, Grammar.reading_blockComment line later rfl, ih]
      rfl
  | case9 body later ih => rfl

/-- A slash that no code character follows is the last. -/
theorem slash_last {rest : List Char} {later : List Segment} (stands : (code '/').Stands rest)
    (cut : grammar.Decomposes rest later) (common : Common (code '/' :: later))
    (alone : ∀ next others, later = code next :: others → False) : later = [] := by
  cases cut with
  | done => rfl
  | @piece segment beyond others _ _ =>
      exfalso
      cases segment with
      | code next => exact alone next others rfl
      | literal body => exact common.apart body ⟨[], others, rfl⟩
      | lineComment body => exact stands.2 ⟨rfl, .inl rfl⟩
      | blockComment body => exact stands.2 ⟨rfl, .inl rfl⟩
      | unclosed body => exact stands.2 ⟨rfl, .inl rfl⟩

/-- A line comment that no newline follows is the last. -/
theorem lineComment_last {body rest : List Char} {later : List Segment}
    (stands : (lineComment body).Stands rest) (cut : grammar.Decomposes rest later)
    (alone : ∀ others, later = code '\n' :: others → False) : later = [] := by
  cases cut with
  | done => rfl
  | @piece segment beyond others _ _ =>
      exfalso
      rcases stands.2 with finished | newline
      · exact segment.text_ne_nil (List.append_eq_nil_iff.mp finished).1
      · cases segment with
        | code next =>
            obtain rfl : next = '\n' := by simpa [text] using newline
            exact alone others rfl
        | _ => simp [text] at newline

theorem literal_stands {body rest : List Char} (stands : (literal body).Stands rest)
    (unescaped : '\\' ∉ body) :
    (Lexeme.literal '"' (body.map .plain) .closed).Stands rest := by
  refine ⟨.inl rfl, ?_, .inl rfl⟩
  intro item member
  obtain ⟨char, inside, rfl⟩ := List.mem_map.mp member
  refine ⟨?_, ?_⟩
  · rintro rfl
    exact stands.1 inside
  · rintro rfl
    exact unescaped inside

theorem decomposes_lexemes {text : List Char} {segments : List Segment}
    (cut : grammar.Decomposes text segments) (common : Common segments) :
    Lexeme.grammar.Decomposes text (lexemes segments) := by
  fun_induction lexemes segments generalizing text with
  | case1 =>
      cases cut
      exact .done
  | case2 next later ih =>
      cases cut with
      | piece stands cut =>
          cases cut with
          | @piece _ rest _ _ cut =>
              have free : next ≠ '/' ∧ next ≠ '*' := by
                simpa [Stands, OpensComment, Segment.text] using stands.2
              exact Lexeme.decomposes_cons (.slash (some next)) free (ih cut common.tail.tail)
  | case3 later alone ih =>
      cases cut with
      | @piece _ rest _ stands cut =>
          obtain rfl := slash_last stands cut common alone
          obtain rfl : [] = rest := by
            cases cut
            rfl
          exact Lexeme.decomposes_cons (.slash none) rfl (ih cut common.tail)
  | case4 char later _ ordinary ih =>
      cases cut with
      | piece _ cut =>
          have unquoted := common.unquoted char List.mem_cons_self
          exact Lexeme.decomposes_cons (.code char) ⟨ordinary, unquoted⟩ (ih cut common.tail)
  | case5 body later ih =>
      cases cut with
      | piece stands cut =>
          have unescaped := common.unescaped body List.mem_cons_self
          rw [grammar_text, ← literal_text]
          exact Lexeme.decomposes_cons _ (literal_stands stands unescaped) (ih cut common.tail)
  | case6 body later ih =>
      cases cut with
      | piece stands cut =>
          cases cut with
          | @piece _ rest _ _ cut =>
              have whole : (lineComment body).text ++ ((code '\n').text ++ rest) =
                  (Lexeme.lineComment body true).text ++ rest := by
                simp [Segment.text, Lexeme.text]
              rw [grammar_text, grammar_text, whole]
              exact Lexeme.decomposes_cons _ ⟨stands.1, .inl rfl⟩ (ih cut common.tail.tail)
  | case7 body later alone ih =>
      cases cut with
      | @piece _ rest _ stands cut =>
          obtain rfl := lineComment_last stands cut alone
          obtain rfl : [] = rest := by
            cases cut
            rfl
          have whole : (lineComment body).text = (Lexeme.lineComment body false).text := by
            simp [Segment.text, Lexeme.text]
          rw [grammar_text, whole]
          exact Lexeme.decomposes_cons _ ⟨stands.1, .inr rfl⟩ (ih cut common.tail)
  | case8 body later ih =>
      cases cut with
      | piece stands cut =>
          exact Lexeme.decomposes_cons (.blockComment body) stands (ih cut common.tail)
  | case9 body later ih =>
      cases cut with
      | piece stands cut =>
          exact Lexeme.decomposes_cons (.unclosed body) stands (ih cut common.tail)

/-- On the common texts the two ways of finding comments agree, errors included. -/
theorem extract_eq_automaton (text : List Char) (common : Common (ofText text)) :
    extract text = Automaton.extract text := by
  obtain ⟨segments, cut⟩ := Grammar.decomposition_exists lawful text
  obtain rfl := ofText_eq cut
  have lexed := decomposes_lexemes cut common
  rw [extract_eq_reading cut, Automaton.extract_eq_reading lexed, reading_lexemes]

theorem extract_eq_automaton_division_and_literal :
    Common (ofText "a/b\"//\"// c\n/*d\n**/".toList) ∧
      extract "a/b\"//\"// c\n/*d\n**/".toList =
        Automaton.extract "a/b\"//\"// c\n/*d\n**/".toList := by
  have common : Common (ofText "a/b\"//\"// c\n/*d\n**/".toList) := by
    have segments : ofText "a/b\"//\"// c\n/*d\n**/".toList =
        [code 'a', code '/', code 'b', literal ['/', '/'], lineComment [' ', 'c'], code '\n',
          blockComment ['d', '\n', '*']] := by decide
    rw [segments]
    exact ⟨by simp, by simp, by simp [List.infix_cons_iff]⟩
  exact ⟨common, extract_eq_automaton _ common⟩

end Segment

end SourceComments
