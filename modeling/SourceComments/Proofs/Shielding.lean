import SourceComments.Proofs.Automaton.Run

/-! What literals hide.

Whatever stands between the quotes of a literal, the comments around it stay as they
are: only its newlines move the comments after it. The automaton comes to a literal
from code, where it holds nothing back, so what it has read before cannot reach into
the literal. Where literals have neither newlines nor escapes, one body may take the
place of another, since no segment in front of a quote depends on the text behind it. -/

namespace SourceComments

theorem Comment.shift_shift (comment : Comment) (count more : Nat) :
    (comment.shift count).shift more = comment.shift (count + more) := by
  obtain ⟨content, span⟩ := comment
  cases span <;> simp [shift, Span.shift, Nat.add_assoc]

theorem Comment.shift_zero : shift 0 = id := by
  funext comment
  obtain ⟨content, span⟩ := comment
  cases span <;> rfl

/-- A mode in which the characters read belong to a comment. -/
def Mode.isComment : Mode → Bool
  | lineComment | blockComment | blockStar => true
  | code | slash | literal _ | escape _ => false

/-- A step that ends outside of comments either never was in one or finishes it. -/
theorem Mode.step_outside {mode next : Mode} {char : Char} {effect : Effect}
    (step : mode.step char = (next, effect)) (outside : next.isComment = false) :
    (mode.isComment = false ∧ effect = .pass) ∨ effect = .emitLine ∨ effect = .emitBlock := by
  cases mode <;> simp only [Mode.step] at step <;> grind [isComment]

namespace Automaton

/-- What the automaton remembers of a text apart from its comments. -/
structure Tracks (text : List Char) (state : Automaton) : Prop where
  line : state.line = 1 + text.count '\n'
  clear : state.mode.isComment = false → state.buffer = ""

theorem Tracks.feed {text : List Char} {state : Automaton} (tracks : Tracks text state)
    (char : Char) : Tracks (text ++ [char]) (state.feed char) := by
  obtain ⟨mode, line, first, last, buffer, done⟩ := state
  rcases step : mode.step char with ⟨next, effect⟩
  have counted : line = 1 + text.count '\n' := tracks.line
  rw [feed_mk line first last buffer done step]
  constructor
  · rw [counted, List.count_append, Nat.add_assoc]
  · intro outside
    have kept : next.isComment = false := by
      cases effect <;> exact outside
    rcases Mode.step_outside step kept with ⟨before, rfl⟩ | rfl | rfl
    · exact tracks.clear before
    · rfl
    · rfl

theorem tracks_run (text : List Char) : Tracks text (run text) := by
  induction text using List.reverseRecOn with
  | nil => exact ⟨rfl, fun _ => rfl⟩
  | append_singleton text char ih =>
      rw [run, List.foldl_append]
      exact ih.feed char

theorem extract_foldl (before after : List Char) :
    extract (before ++ after) = (after.foldl feed (run before)).finish := by
  rw [extract, run, List.foldl_append, ← run]

/-- From code on, a text is read as its lexemes say, whatever lines are still noted for an
earlier block comment. -/
theorem finish_from_code {before after : List Char} {lexemes : List Lexeme}
    (outside : (run before).mode = .code) (cut : Lexeme.grammar.Decomposes after lexemes)
    (first last : Nat) :
    (after.foldl feed { run before with blockStart := first, blockEnd := last }).finish =
      (Lexeme.grammar.reading (1 + before.count '\n') lexemes).map
        ((run before).comments.toList ++ ·) := by
  have tracks := tracks_run before
  rcases reached : run before with ⟨mode, line, start, stop, buffer, done⟩
  rw [reached] at outside tracks
  obtain rfl : mode = .code := outside
  obtain rfl : buffer = "" := tracks.clear rfl
  obtain rfl : line = 1 + before.count '\n' := tracks.line
  exact finish_foldl cut _ first last done

/-- Where a text leaves the automaton in code, the rest is read as a text of its own. -/
theorem extract_append {before : List Char} (outside : (run before).mode = .code) :
    ∃ earlier, extract before = .ok earlier ∧ ∀ after, extract (before ++ after) =
      (extract after).map fun own => earlier ++ own.map (Comment.shift (before.count '\n')) := by
  refine ⟨(run before).comments.toList, by rw [extract, finish, outside], ?_⟩
  intro after
  obtain ⟨lexemes, cut⟩ := Grammar.decomposition_exists Lexeme.lawful after
  have onward : (after.foldl feed (run before)).finish = _ :=
    finish_from_code outside cut (run before).blockStart (run before).blockEnd
  rw [extract_foldl, onward, Grammar.reading_shift, extract_eq_reading cut]
  cases Lexeme.grammar.reading 1 lexemes <;> rfl

/-- A literal at the start of a text only moves what follows it. -/
theorem extract_literal {quote : Char} {items : List Item}
    (quoted : quote = '"' ∨ quote = '\'') (fits : ∀ item ∈ items, item.Fits quote)
    (after : List Char) :
    extract (quote :: (items.flatMap Item.text ++ quote :: after)) =
      (extract after).map (List.map (Comment.shift ((items.flatMap Item.text).count '\n'))) := by
  obtain ⟨lexemes, cut⟩ := Grammar.decomposition_exists Lexeme.lawful after
  have stands : (Lexeme.literal quote items .closed).Stands after := ⟨quoted, fits, .inl rfl⟩
  have written : quote :: (items.flatMap Item.text ++ quote :: after) =
      (Lexeme.literal quote items .closed).text ++ after := by
    simp [Lexeme.text, Ending.text]
  have newlines : (Lexeme.literal quote items .closed).text.count '\n' =
      (items.flatMap Item.text).count '\n' := by
    simp [Lexeme.text, Ending.text, (Lexeme.quote_ordinary quoted).2]
  rw [written, extract_eq_reading (Lexeme.decomposes_cons _ stands cut),
    Grammar.reading_plain 1 lexemes rfl, Lexeme.grammar_text, newlines, Grammar.reading_shift,
    extract_eq_reading cut]

/-- A literal that stands in code hides what is between its quotes. With the body or
without it, the text in front gives the same comments, and the text behind gives its
own ones, moved by the newlines in front of it. -/
theorem extract_moves_past_literal (before after : List Char) (quote : Char) (items : List Item)
    (outside : (run before).mode = .code) (quoted : quote = '"' ∨ quote = '\'')
    (fits : ∀ item ∈ items, item.Fits quote) :
    ∃ earlier, extract before = .ok earlier ∧
      extract (before ++ quote :: quote :: after) = (extract after).map (fun own =>
        earlier ++ own.map (Comment.shift (before.count '\n'))) ∧
      extract (before ++ quote :: (items.flatMap Item.text ++ quote :: after)) =
        (extract after).map (fun own =>
          earlier ++ (own.map (Comment.shift (before.count '\n'))).map
            (Comment.shift ((items.flatMap Item.text).count '\n'))) := by
  obtain ⟨earlier, first, appended⟩ := extract_append outside
  have empty : extract (quote :: quote :: after) = extract after := by
    have bare := @extract_literal quote [] quoted (by simp) after
    rw [List.flatMap_nil, List.count_nil, List.nil_append, Comment.shift_zero] at bare
    rw [bare]
    cases extract after <;> simp [Except.map]
  have filled := extract_literal quoted fits after
  refine ⟨earlier, first, by rw [appended, empty], ?_⟩
  rw [appended, filled]
  cases extract after with
  | error reason => rfl
  | ok own => simp [Except.map, Comment.shift_shift, Nat.add_comm]

/-- The literal starts behind a comment, a literal that spans lines and a division. -/
theorem extract_moves_past_literal_of_markers :
    (run "/*a*/'\\\n'/x".toList).mode = .code ∧
      extract ("/*a*/'\\\n'/x".toList ++ '"' :: ("//'\n/*\\\"".toList ++ '"' :: "\n//b".toList)) =
        .ok [⟨"a", .lines 1 1⟩, ⟨"b", .line 4⟩] := by
  have outside : (run "/*a*/'\\\n'/x".toList).mode = .code := by decide
  have fits : ∀ item ∈ [Item.plain '/', .plain '/', .plain '\'', .plain '\n', .plain '/',
      .plain '*', .escaped '"'], item.Fits '"' := by
    simp [Item.Fits]
  obtain ⟨earlier, first, -, filled⟩ :=
    extract_moves_past_literal _ "\n//b".toList '"' _ outside (.inl rfl) fits
  have front : extract "/*a*/'\\\n'/x".toList = .ok [⟨"a", .lines 1 1⟩] := by decide
  have behind : extract "\n//b".toList = .ok [⟨"b", .line 2⟩] := by decide
  obtain rfl : earlier = [⟨"a", .lines 1 1⟩] := Except.ok.inj (first.symm.trans front)
  rw [behind] at filled
  exact ⟨outside, filled⟩

/-- Right behind a slash a quote opens no literal: what it should hide is read as a comment. -/
theorem slash_uncovers_literal :
    (run "a/".toList).mode = .slash ∧
      extract ("a/".toList ++ '"' :: '"' :: []) = .ok [] ∧
      extract ("a/".toList ++ '"' :: ("//b".toList ++ '"' :: [])) = .ok [⟨"b\"", .line 1⟩] := by
  decide

end Automaton

namespace Segment

/-- The segments have a literal whose opening quote stands behind the first `offset`
characters. -/
def OpensLiteral (text : List Char) (offset : Nat) : Prop :=
  ∃ before body after, ofText text = before ++ literal body :: after ∧
    (before.flatMap Segment.text).length = offset

theorem head_before_quote (between after other : List Char) :
    (between ++ '"' :: other).head? = (between ++ '"' :: after).head? := by
  cases between <;> rfl

/-- A quote that closes is not behind the quote given. -/
theorem closesOnLine_before_quote {between other : List Char} (after : List Char)
    (closes : ClosesOnLine (between ++ '"' :: other)) :
    ClosesOnLine (between ++ '"' :: after) := by
  rw [closesOnLine_append] at closes ⊢
  refine closes.imp_right ?_
  rintro ⟨unquoted, inside, -⟩
  exact ⟨unquoted, inside, [], after, rfl, by simp, by simp⟩

/-- Whether a segment may stand in front of a quote does not depend on the text behind
that quote. -/
theorem stands_before_quote {segment : Segment} {between after : List Char} (other : List Char)
    (stands : segment.Stands (between ++ '"' :: after)) :
    segment.Stands (between ++ '"' :: other) := by
  cases segment with
  | code char =>
      obtain ⟨unquoted, silent⟩ := stands
      constructor
      · rintro ⟨quote, closes⟩
        exact unquoted ⟨quote, closesOnLine_before_quote after closes⟩
      · rw [OpensComment, head_before_quote between after other]
        exact silent
  | literal body => exact stands
  | lineComment body =>
      obtain ⟨inside, ended | newline⟩ := stands
      · simp at ended
      · rw [head_before_quote between other after] at newline
        exact ⟨inside, .inr newline⟩
  | blockComment body => exact stands
  | unclosed body =>
      have ended := stands.2
      simp at ended

/-- Segments in front of a quote keep their places when another text takes the place of
what stands from the quote on. -/
theorem decomposes_before_quote {before later : List Segment} {after : List Char}
    (cut : grammar.Decomposes (before.flatMap Segment.text ++ '"' :: after) (before ++ later)) :
    grammar.Decomposes ('"' :: after) later ∧
      ∀ other others, grammar.Decomposes ('"' :: other) others →
        grammar.Decomposes (before.flatMap Segment.text ++ '"' :: other) (before ++ others) := by
  induction before with
  | nil => exact ⟨cut, fun _ _ given => given⟩
  | cons segment before ih =>
      rw [List.flatMap_cons, List.append_assoc, List.cons_append] at cut
      obtain ⟨stands, cutLater⟩ := Grammar.Decomposes.uncons cut
      obtain ⟨quoted, replaced⟩ := ih cutLater
      refine ⟨quoted, ?_⟩
      intro other others given
      rw [List.flatMap_cons, List.append_assoc]
      exact .piece (stands_before_quote other stands) (replaced other others given)

theorem literal_decomposes {body after : List Char} {later : List Segment}
    (unquoted : '"' ∉ body) (inside : '\n' ∉ body) (cut : grammar.Decomposes after later) :
    grammar.Decomposes ('"' :: (body ++ '"' :: after)) (literal body :: later) := by
  have written : '"' :: (body ++ '"' :: after) = grammar.text (literal body) ++ after := by
    simp [Segment.text]
  have stands : grammar.Stands (literal body) after := ⟨unquoted, inside⟩
  rw [written]
  exact .piece stands cut

/-- The literal that opens in front of a body without quotes and newlines holds that body. -/
theorem literal_uncons {body found after : List Char} {later : List Segment}
    (unquoted : '"' ∉ body) (inside : '\n' ∉ body)
    (cut : grammar.Decomposes ('"' :: (body ++ '"' :: after)) (literal found :: later)) :
    found = body ∧ grammar.Decomposes after later := by
  obtain ⟨others, cutAfter⟩ := Grammar.decomposition_exists lawful after
  have expected := literal_decomposes unquoted inside cutAfter
  have same := cut.unique lawful expected
  simp only [List.cons.injEq, literal.injEq] at same
  obtain ⟨rfl, rfl⟩ := same
  exact ⟨rfl, cutAfter⟩

theorem reading_literal {body : List Char} (inside : '\n' ∉ body) (line : Nat)
    (later : List Segment) :
    grammar.reading line (literal body :: later) = grammar.reading line later := by
  have newlines : (literal body).text.count '\n' = 0 := by
    simp [Segment.text, List.count_eq_zero.mpr inside]
  rw [Grammar.reading_plain line later rfl, grammar_text, newlines, Nat.add_zero]

/-- Where a quote opens a literal, any other body on the same line gives the same comments
on the same lines, or the same error. -/
theorem extract_hides_literal_body (before after body other : List Char)
    (unquoted : '"' ∉ body) (inside : '\n' ∉ body)
    (unquotedToo : '"' ∉ other) (insideToo : '\n' ∉ other)
    (opens : OpensLiteral (before ++ '"' :: (body ++ '"' :: after)) before.length) :
    extract (before ++ '"' :: (other ++ '"' :: after)) =
      extract (before ++ '"' :: (body ++ '"' :: after)) := by
  obtain ⟨front, found, later, split, offset⟩ := opens
  obtain ⟨segments, cut⟩ :=
    Grammar.decomposition_exists lawful (before ++ '"' :: (body ++ '"' :: after))
  obtain rfl : segments = front ++ literal found :: later := (ofText_eq cut).symm.trans split
  have whole := cut.text_eq
  rw [List.flatMap_append] at whole
  obtain rfl : front.flatMap Segment.text = before := List.append_inj_left whole offset
  obtain ⟨quoted, replaced⟩ := decomposes_before_quote cut
  obtain ⟨rfl, cutAfter⟩ := literal_uncons unquoted inside quoted
  have cutOther := replaced _ _ (literal_decomposes unquotedToo insideToo cutAfter)
  rw [extract_eq_reading cut, extract_eq_reading cutOther]
  apply Grammar.reading_append_congr
  intro line
  rw [reading_literal inside, reading_literal insideToo]

/-- A stray quote hides nothing beyond its line, and a quote in a comment opens nothing. -/
theorem extract_hides_literal_body_of_markers :
    OpensLiteral "\" a\n/*\"*/\"x\"// c".toList 9 ∧
      extract "\" a\n/*\"*/\"/*'//\"// c".toList = extract "\" a\n/*\"*/\"x\"// c".toList := by
  have opens : OpensLiteral "\" a\n/*\"*/\"x\"// c".toList 9 :=
    ⟨[code '"', code ' ', code 'a', code '\n', blockComment ['"']], ['x'],
      [lineComment [' ', 'c']], by decide, by decide⟩
  exact ⟨opens, extract_hides_literal_body "\" a\n/*\"*/".toList "// c".toList "x".toList
    "/*'//".toList (by decide) (by decide) (by decide) (by decide) opens⟩

end Segment

end SourceComments
