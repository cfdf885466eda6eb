import SourceComments.Automaton
import SourceComments.Proofs.Automaton.Lexeme

/-! What the automaton reads.

Between two lexemes the automaton is in code with an empty buffer. Each lexeme
brings it back there with its comment added, and a lexeme that is cut short leaves
it in a mode that the end of the text settles. Inside a block comment a star is
held back until the next character shows whether it closes the comment. -/

namespace SourceComments.Automaton

theorem push_ofList (body : List Char) (char : Char) :
    (String.ofList body).push char = String.ofList (body ++ [char]) := by
  rw [← String.toList_inj]
  simp

section

variable (line first last : Nat) (buffer : String) (done : Array Comment)

/-- A character counts for the line whatever else it does. -/
theorem feed_mk {mode next : Mode} {effect : Effect} {char : Char}
    (step : mode.step char = (next, effect)) :
    feed ⟨mode, line, first, last, buffer, done⟩ char =
      { apply ⟨next, line, first, last, buffer, done⟩ effect with
        line := line + [char].count '\n' } := by
  by_cases newline : char = '\n'
  · subst newline
    rw [feed, step]
    cases effect <;> rfl
  · rw [feed, step]
    cases effect <;> simp [apply, newline]

theorem feed_code {char : Char} (stands : (Lexeme.code char).Stands []) :
    feed ⟨.code, line, first, last, buffer, done⟩ char =
      ⟨.code, line + [char].count '\n', first, last, buffer, done⟩ := by
  have step : Mode.code.step char = (.code, .pass) := by simp [Mode.step, stands.1, stands.2]
  exact feed_mk line first last buffer done step

theorem feed_slash : feed ⟨.code, line, first, last, buffer, done⟩ '/' =
    ⟨.slash, line, first, last, buffer, done⟩ := rfl

theorem feed_after_slash {next : Char} (noSlash : next ≠ '/') (noStar : next ≠ '*') :
    feed ⟨.slash, line, first, last, buffer, done⟩ next =
      ⟨.code, line + [next].count '\n', first, last, buffer, done⟩ := by
  have step : Mode.slash.step next = (.code, .pass) := by simp [Mode.step, noSlash, noStar]
  exact feed_mk line first last buffer done step

theorem feed_open_quote {quote : Char} (quoted : quote = '"' ∨ quote = '\'') :
    feed ⟨.code, line, first, last, buffer, done⟩ quote =
      ⟨.literal quote, line, first, last, buffer, done⟩ := by
  rcases quoted with rfl | rfl <;> rfl

theorem feed_plain {quote char : Char} (fits : (Item.plain char).Fits quote) :
    feed ⟨.literal quote, line, first, last, buffer, done⟩ char =
      ⟨.literal quote, line + [char].count '\n', first, last, buffer, done⟩ := by
  have step : (Mode.literal quote).step char = (.literal quote, .pass) := by
    simp [Mode.step, fits.1, fits.2]
  exact feed_mk line first last buffer done step

theorem feed_backslash {quote : Char} (ordinary : quote ≠ '\\') :
    feed ⟨.literal quote, line, first, last, buffer, done⟩ '\\' =
      ⟨.escape quote, line, first, last, buffer, done⟩ := by
  have step : (Mode.literal quote).step '\\' = (.escape quote, .pass) := by
    simp [Mode.step, Ne.symm ordinary]
  exact feed_mk line first last buffer done step

theorem feed_escaped (quote char : Char) :
    feed ⟨.escape quote, line, first, last, buffer, done⟩ char =
      ⟨.literal quote, line + [char].count '\n', first, last, buffer, done⟩ :=
  feed_mk line first last buffer done rfl

theorem feed_close_quote (quote : Char) :
    feed ⟨.literal quote, line, first, last, buffer, done⟩ quote =
      ⟨.code, line + [quote].count '\n', first, last, buffer, done⟩ := by
  have step : (Mode.literal quote).step quote = (.code, .pass) := by simp [Mode.step]
  exact feed_mk line first last buffer done step

theorem feed_line_char {char : Char} (inside : char ≠ '\n') :
    feed ⟨.lineComment, line, first, last, buffer, done⟩ char =
      ⟨.lineComment, line, first, last, buffer.push char, done⟩ := by
  simp [feed, Mode.step, apply, inside]

theorem foldl_items {quote : Char} (ordinary : quote ≠ '\\') {items : List Item}
    (fits : ∀ item ∈ items, item.Fits quote) :
    (items.flatMap Item.text).foldl feed ⟨.literal quote, line, first, last, buffer, done⟩ =
      ⟨.literal quote, line + (items.flatMap Item.text).count '\n', first, last, buffer, done⟩ := by
  induction items generalizing line with
  | nil => rfl
  | cons item items ih =>
      have here := fits item List.mem_cons_self
      have later (line : Nat) :=
        ih line fun other member => fits other (List.mem_cons_of_mem item member)
      rw [List.flatMap_cons, List.foldl_append, List.count_append, ← Nat.add_assoc]
      cases item with
      | plain char =>
          rw [Item.text, List.foldl_cons, feed_plain _ _ _ _ _ here, List.foldl_nil, later]
      | escaped char =>
          rw [Item.text, List.foldl_cons, feed_backslash _ _ _ _ _ ordinary, List.foldl_cons,
            feed_escaped, List.foldl_nil, later]
          simp

theorem foldl_line {body : List Char} (inside : '\n' ∉ body) :
    body.foldl feed ⟨.lineComment, line, first, last, "", done⟩ =
      ⟨.lineComment, line, first, last, String.ofList body, done⟩ := by
  induction body using List.reverseRecOn with
  | nil => rfl
  | append_singleton body char ih =>
      rw [List.mem_append, not_or, List.mem_singleton] at inside
      rw [List.foldl_append, ih inside.1, List.foldl_cons, List.foldl_nil,
        feed_line_char _ _ _ _ _ (Ne.symm inside.2), push_ofList]

end

/-- The automaton inside a block comment that opened on line `first`, when `body` has
been read of it. A star at the end of the body is held back. -/
inductive ReadsBlock (first : Nat) (done : Array Comment) : List Char → Automaton → Prop where
  | settled (body : List Char) (last : Nat) :
      ReadsBlock first done body
        ⟨.blockComment, first + body.count '\n', first, last, String.ofList body, done⟩
  | held (body : List Char) :
      ReadsBlock first done (body ++ ['*'])
        ⟨.blockStar, first + body.count '\n', first, first + body.count '\n',
          String.ofList body, done⟩

theorem ReadsBlock.feed {first : Nat} {done : Array Comment} {body : List Char} {state : Automaton}
    (reads : ReadsBlock first done body state) {char : Char}
    (absent : ¬closer <:+: body ++ [char]) :
    ReadsBlock first done (body ++ [char]) (state.feed char) := by
  cases reads with
  | settled body last =>
      by_cases star : char = '*'
      · subst star
        exact .held body
      · have step : Mode.blockComment.step char = (.blockComment, .keep char) := by
          simp [Mode.step, star]
        rw [feed_mk _ _ _ _ _ step, apply, push_ofList, Nat.add_assoc, ← List.count_append]
        exact .settled (body ++ [char]) last
  | held body =>
      by_cases star : char = '*'
      · subst star
        -- The held star turns out to be content, and the new one is held in its place.
        have counted : body.count '\n' = (body ++ ['*']).count '\n' := by simp
        have step : Mode.blockStar.step '*' = (.blockStar, .keepStar) := rfl
        rw [feed_mk _ _ _ _ _ step, apply, push_ofList]
        rw [counted]
        exact .held (body ++ ['*'])
      · have noSlash : char ≠ '/' := by
          rintro rfl
          apply absent
          rw [closer_infix_snoc]
          simp
        have step : Mode.blockStar.step char = (.blockComment, .keepStarAnd char) := by
          simp [Mode.step, star, noSlash]
        have counted : body.count '\n' = (body ++ ['*']).count '\n' := by simp
        rw [feed_mk _ _ _ _ _ step, apply, push_ofList, push_ofList, Nat.add_assoc, counted,
          ← List.count_append]
        exact .settled (body ++ ['*'] ++ [char]) _

theorem readsBlock_foldl {body : List Char} (absent : ¬closer <:+: body) (first last : Nat)
    (done : Array Comment) :
    ReadsBlock first done body
      (body.foldl Automaton.feed ⟨.blockComment, first, first, last, "", done⟩) := by
  induction body using List.reverseRecOn with
  | nil => exact .settled [] last
  | append_singleton body char ih =>
      rw [List.foldl_append]
      exact (ih (not_closer_infix_of_append absent)).feed absent

theorem ReadsBlock.close {first : Nat} {done : Array Comment} {body : List Char} {state : Automaton}
    (reads : ReadsBlock first done body state) :
    (state.feed '*').feed '/' =
      ⟨.code, first + body.count '\n', first, first + body.count '\n', "",
        done.push ⟨String.ofList body, .lines first (first + body.count '\n')⟩⟩ := by
  cases reads with
  | settled body last => rfl
  | held body =>
      have star : Mode.blockStar.step '*' = (.blockStar, .keepStar) := rfl
      have slash : Mode.blockStar.step '/' = (.code, .emitBlock) := rfl
      rw [feed_mk _ _ _ _ _ star, apply, feed_mk _ _ _ _ _ slash, apply, push_ofList]
      simp

theorem ReadsBlock.finish {first : Nat} {done : Array Comment} {body : List Char}
    {state : Automaton} (reads : ReadsBlock first done body state) :
    state.finish = .error .blockComment := by
  cases reads <;> rfl

theorem map_push (result : Extracted) (done : Array Comment) (comment : Comment) :
    (result.map (comment :: ·)).map (done.toList ++ ·) =
      result.map ((done.push comment).toList ++ ·) := by
  cases result <;> simp [Except.map]

theorem foldl_opened_literal {quote : Char} {items : List Item}
    (quoted : quote = '"' ∨ quote = '\'') (fits : ∀ item ∈ items, item.Fits quote)
    (line first last : Nat) (done : Array Comment) :
    (quote :: items.flatMap Item.text).foldl feed ⟨.code, line, first, last, "", done⟩ =
      ⟨.literal quote, line + (items.flatMap Item.text).count '\n', first, last, "", done⟩ := by
  have ordinary := (Lexeme.quote_ordinary quoted).1
  rw [List.foldl_cons, feed_open_quote _ _ _ _ _ quoted, foldl_items _ _ _ _ _ ordinary fits]

section

variable (line first last : Nat) (done : Array Comment)

theorem foldl_slash {next : Char} (noSlash : next ≠ '/') (noStar : next ≠ '*') :
    (Lexeme.slash (some next)).text.foldl feed ⟨.code, line, first, last, "", done⟩ =
      ⟨.code, line + (Lexeme.slash (some next)).text.count '\n', first, last, "", done⟩ := by
  rw [Lexeme.text, Option.toList_some, List.foldl_cons, feed_slash, List.foldl_cons,
    feed_after_slash _ _ _ _ _ noSlash noStar, List.foldl_nil]
  simp

theorem foldl_closed_literal {quote : Char} {items : List Item}
    (quoted : quote = '"' ∨ quote = '\'') (fits : ∀ item ∈ items, item.Fits quote) :
    (Lexeme.literal quote items .closed).text.foldl feed ⟨.code, line, first, last, "", done⟩ =
      ⟨.code, line + (Lexeme.literal quote items .closed).text.count '\n', first, last, "",
        done⟩ := by
  rw [Lexeme.text, ← List.cons_append, List.foldl_append, foldl_opened_literal quoted fits,
    Ending.text, List.foldl_cons, feed_close_quote, List.foldl_nil]
  simp [(Lexeme.quote_ordinary quoted).2]

/-- A literal that the text cuts short adds nothing. -/
theorem finish_cut_literal {quote : Char} {items : List Item} {ending : Ending}
    (quoted : quote = '"' ∨ quote = '\'') (fits : ∀ item ∈ items, item.Fits quote)
    (short : ending ≠ .closed) :
    ((Lexeme.literal quote items ending).text.foldl feed
      ⟨.code, line, first, last, "", done⟩).finish = .ok done.toList := by
  rw [Lexeme.text, ← List.cons_append, List.foldl_append, foldl_opened_literal quoted fits]
  cases ending with
  | closed => exact absurd rfl short
  | cut => rfl
  | cutEscape =>
      rw [Ending.text, List.foldl_cons,
        feed_backslash _ _ _ _ _ (Lexeme.quote_ordinary quoted).1]
      rfl

theorem foldl_opened_line {body : List Char} (inside : '\n' ∉ body) (newline : Bool) :
    (Lexeme.lineComment body newline).text.foldl feed ⟨.code, line, first, last, "", done⟩ =
      (if newline then ['\n'] else []).foldl feed
        ⟨.lineComment, line, first, last, String.ofList body, done⟩ := by
  rw [Lexeme.text, List.foldl_append, List.foldl_cons, List.foldl_cons, feed_slash]
  exact congrArg (List.foldl feed · _) (foldl_line line first last done inside)

theorem foldl_closed_line {body : List Char} (inside : '\n' ∉ body) :
    (Lexeme.lineComment body true).text.foldl feed ⟨.code, line, first, last, "", done⟩ =
      ⟨.code, line + (Lexeme.lineComment body true).text.count '\n', first, last, "",
        done.push ⟨String.ofList body, .line line⟩⟩ := by
  have counted : (Lexeme.lineComment body true).text.count '\n' = 1 := by
    simp [Lexeme.text, List.count_eq_zero.mpr inside]
  rw [foldl_opened_line line first last done inside, counted]
  rfl

theorem foldl_block {body : List Char} (absent : ¬closer <:+: body) :
    (Lexeme.blockComment body).text.foldl feed ⟨.code, line, first, last, "", done⟩ =
      ⟨.code, line + (Lexeme.blockComment body).text.count '\n', line, line + body.count '\n', "",
        done.push ⟨String.ofList body, .lines line (line + body.count '\n')⟩⟩ := by
  have reads := readsBlock_foldl absent line last done
  have counted : (Lexeme.blockComment body).text.count '\n' = body.count '\n' := by
    simp [Lexeme.text]
  rw [counted, Lexeme.text, List.foldl_append]
  exact reads.close

end

/-- From the place between two lexemes, the rest of the text adds what its lexemes say. -/
theorem finish_foldl {text : List Char} {lexemes : List Lexeme}
    (cut : Lexeme.grammar.Decomposes text lexemes) (line first last : Nat) (done : Array Comment) :
    (text.foldl feed ⟨.code, line, first, last, "", done⟩).finish =
      (Lexeme.grammar.reading line lexemes).map (done.toList ++ ·) := by
  induction cut generalizing line first last done with
  | done => simp [finish, Grammar.reading, Except.map]
  | @piece lexeme rest later stands cut ih =>
      -- A lexeme that the text cuts short is the last, and nothing is read after it.
      have ended (finished : rest = []) : later = [] := by
        subst finished
        exact cut.unique Lexeme.lawful .done
      rw [List.foldl_append, Lexeme.grammar_text]
      cases lexeme with
      | code char =>
          rw [Grammar.reading_plain line later rfl, Lexeme.text, List.foldl_cons,
            feed_code _ _ _ _ _ stands, List.foldl_nil, ih]
          rfl
      | slash next =>
          rw [Grammar.reading_plain line later rfl]
          cases next with
          | none =>
              obtain rfl : rest = [] := stands
              obtain rfl := ended rfl
              simp [Lexeme.text, feed_slash, finish, Grammar.reading, Except.map]
          | some next =>
              rw [foldl_slash line first last done stands.1 stands.2, ih, Lexeme.grammar_text]
      | literal quote items ending =>
          obtain ⟨quoted, fits, final⟩ := stands
          rw [Grammar.reading_plain line later rfl]
          by_cases whole : ending = .closed
          · subst whole
            rw [foldl_closed_literal line first last done quoted fits, ih, Lexeme.grammar_text]
          · obtain rfl : rest = [] := final.resolve_left whole
            obtain rfl := ended rfl
            rw [List.foldl_nil, finish_cut_literal line first last done quoted fits whole]
            simp [Grammar.reading, Except.map]
      | lineComment body newline =>
          obtain ⟨inside, final⟩ := stands
          rw [Grammar.reading_lineComment line later rfl, map_push]
          cases newline with
          | true => rw [foldl_closed_line line first last done inside, ih, Lexeme.grammar_text]
          | false =>
              obtain rfl : rest = [] := by simpa using final
              obtain rfl := ended rfl
              rw [foldl_opened_line line first last done inside]
              simp [finish, Grammar.reading, Except.map]
      | blockComment body =>
          have absent := (nearestCloser_iff body).mp stands
          rw [foldl_block line first last done absent, ih,
            Grammar.reading_blockComment line later rfl, map_push, Lexeme.grammar_text]
      | unclosed body =>
          obtain ⟨absent, rfl⟩ := stands
          exact (readsBlock_foldl absent line last done).finish

theorem extract_eq_reading {text : List Char} {lexemes : List Lexeme}
    (cut : Lexeme.grammar.Decomposes text lexemes) :
    extract text = Lexeme.grammar.reading 1 lexemes := by
  rw [extract, run, start, finish_foldl cut]
  cases Lexeme.grammar.reading 1 lexemes <;> rfl

/-- Every text has exactly one decomposition into lexemes. It is unterminated exactly
when the last of them is an unclosed comment, and otherwise its comments are those of
the lexemes, in order. -/
theorem extract_reads_lexemes (text : List Char) :
    ∃ lexemes, (∀ other, Lexeme.grammar.Decomposes text other ↔ other = lexemes) ∧
      (extract text = .error .blockComment ↔
        ∃ body, lexemes.getLast? = some (.unclosed body)) ∧
      ((∃ body, lexemes.getLast? = some (.unclosed body)) ∨
        ∃ comments, extract text = .ok comments ∧
          comments.map Comment.record = lexemes.filterMap fun lexeme => lexeme.role.record?) := by
  obtain ⟨lexemes, only⟩ := Grammar.decomposition_unique Lexeme.lawful text
  have cut := (only lexemes).mpr rfl
  have outcome := Grammar.reading_outcome Lexeme.lawful cut 1
  rw [← extract_eq_reading cut, Lexeme.endsUnclosed_iff] at outcome
  exact ⟨lexemes, only, outcome⟩

end SourceComments.Automaton
