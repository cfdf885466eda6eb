import SourceComments.Proofs.Pattern
import SourceComments.Proofs.Segment.Grammar

/-! Delimited regions as one regular expression.

The expression has four alternatives: a run of adjacent literals, a line comment, a
closed block comment and, last, an opener that could not be closed. Its matches
from left to right give the same comments as the segments of the text. A run of
literals is one match and several segments, and neither yields a comment. -/

namespace SourceComments.Segment

open Pattern

def exactly (char : Char) : Pattern := .one (· = char)

/-- One literal: `"[^"\n]*"`. -/
def quotedPattern : Pattern :=
  .seq (exactly '"') (.seq (.greedy (.one fun char => char ≠ '"' ∧ char ≠ '\n')) (exactly '"'))

/-- Adjacent literals: `(?:"[^"\n]*")+`. -/
def literalPattern : Pattern := .group "literal" (.seq quotedPattern (.greedy quotedPattern))

/-- A line comment: `//(.*)$`, where a dot is any character but a newline. -/
def linePattern : Pattern :=
  .group "single" (.seq (exactly '/') (.seq (exactly '/')
    (.seq (.group "single_content" (.greedy (.one (· ≠ '\n')))) .lineEnd)))

/-- A closed block comment: `/\*(.*?)\*/`, where a dot is any character at all. -/
def blockPattern : Pattern :=
  .group "multi" (.seq (exactly '/') (.seq (exactly '*')
    (.seq (.group "multi_content" (.lazy (.one fun _ => true)))
      (.seq (exactly '*') (exactly '/')))))

/-- An opener: `/\*`. -/
def openerPattern : Pattern := .group "error" (.seq (exactly '/') (exactly '*'))

def commentPattern : Pattern :=
  .alt literalPattern (.alt linePattern (.alt blockPattern openerPattern))

def content (way : Way) (name : String) : String :=
  String.ofList (((way.group? name).map (·.body)).getD [])

/-- The comments that the matches of the expression stand for. -/
def matchedComments (index : LineIndex) : List (List Char × Way) → Extracted
  | [] => .ok []
  | (before, way) :: later =>
      match way.group? "single" with
      | some single =>
          let start := byteLength (before ++ single.before)
          (matchedComments index later).map
            (⟨content way "single_content", .line (index.lineOf start)⟩ :: ·)
      | none =>
          match way.group? "multi" with
          | some multi =>
              let start := byteLength (before ++ multi.before)
              let stop := start + byteLength multi.body
              (matchedComments index later).map
                (⟨content way "multi_content",
                  .lines (index.lineOf start) (index.lineOf stop)⟩ :: ·)
          | none =>
              if (way.group? "error").isSome then .error .blockComment
              else matchedComments index later

/-- Every comment of the text, by searching for the expression. -/
def searched (text : List Char) : Extracted :=
  matchedComments (LineIndex.ofChars text) (commentPattern.matchesFrom 0 [] text)

theorem ways_exactly (char : Char) (text : List Char) :
    (exactly char).ways text = if text.head? = some char then [⟨[char], []⟩] else [] := by
  cases text with
  | nil => rfl
  | cons first rest =>
      by_cases same : first = char
      · simp [exactly, ways, same]
      · simp [exactly, ways, same]

theorem ways_exactly_seq (char : Char) (rest : List Char) (next : Pattern) :
    (Pattern.seq (exactly char) next).ways (char :: rest) =
      (next.ways rest).map (Way.andThen ⟨[char], []⟩) := by
  simp [ways, ways_exactly, continued]

theorem ways_exactly_seq_of_ne {char : Char} {text : List Char} (next : Pattern)
    (other : text.head? ≠ some char) : (Pattern.seq (exactly char) next).ways text = [] := by
  simp [ways, ways_exactly, continued, other]

theorem literalBody?_eq_takeWhile (rest : List Char) :
    literalBody? rest =
      if (rest.dropWhile fun char => char ≠ '"' ∧ char ≠ '\n').head? = some '"' then
        some (rest.takeWhile fun char => char ≠ '"' ∧ char ≠ '\n')
      else none := by
  induction rest with
  | nil => rfl
  | cons char rest ih =>
      rw [literalBody?]
      by_cases quote : char = '"'
      · simp [quote]
      · by_cases newline : char = '\n'
        · simp [newline]
        · rw [if_neg quote, if_neg newline, ih]
          simp [quote, newline, apply_ite]

theorem ways_quoted (rest : List Char) :
    quotedPattern.ways ('"' :: rest) =
      ((literalBody? rest).map fun body => Way.mk (literal body).text []).toList := by
  have longest := runs_flatMap (fun char => decide (char ≠ '"' ∧ char ≠ '\n')) rest
    (fun run after => ((exactly '"').ways after).map (Way.andThen ⟨run, []⟩)) (by
      intro run char after accepted
      simp only [decide_eq_true_eq] at accepted
      simp [ways_exactly, accepted.1])
  rw [quotedPattern, ways_exactly_seq, ways, continued, ways_greedy_one, List.flatMap_map, longest,
    ways_exactly, literalBody?_eq_takeWhile]
  split
  · simp [Way.andThen, text]
  · simp

/-- A way that takes adjacent literals and nothing else. -/
def TakesLiterals (text : List Char) (way : Way) : Prop :=
  way.groups = [] ∧ ∃ (bodies : List (List Char)) (rest : List Char), text = way.taken ++ rest ∧
    way.taken = bodies.flatMap (fun body => (literal body).text) ∧
    ∀ body ∈ bodies, '"' ∉ body ∧ '\n' ∉ body

theorem takesLiterals_quoted {text : List Char} {way : Way}
    (found : way ∈ quotedPattern.ways text) : TakesLiterals text way := by
  cases text with
  | nil =>
      rw [quotedPattern, ways_exactly_seq_of_ne _ (by simp)] at found
      simp at found
  | cons char rest =>
      by_cases quote : char = '"'
      · subst quote
        rw [ways_quoted, Option.mem_toList, Option.map_eq_some_iff] at found
        obtain ⟨body, closed, rfl⟩ := found
        obtain ⟨after, rfl, inside⟩ := literalBody?_eq_some.mp closed
        exact ⟨rfl, [body], after, by simp [Segment.text], by simp, by simpa using inside⟩
      · rw [quotedPattern, ways_exactly_seq_of_ne _ (by simpa using quote)] at found
        simp at found

theorem TakesLiterals.andThen {text : List Char} {first next : Way}
    (left : TakesLiterals text first)
    (right : TakesLiterals (text.drop first.taken.length) next) :
    TakesLiterals text (first.andThen next) := by
  obtain ⟨leftGroups, leftBodies, leftRest, rfl, leftTaken, leftInside⟩ := left
  obtain ⟨rightGroups, rightBodies, rightRest, rightSplit, rightTaken, rightInside⟩ := right
  rw [List.drop_left] at rightSplit
  refine ⟨by simp [Way.andThen, leftGroups, rightGroups], leftBodies ++ rightBodies, rightRest,
    by simp [rightSplit], by simp [← leftTaken, ← rightTaken], ?_⟩
  intro body member
  rcases List.mem_append.mp member with before | after
  · exact leftInside body before
  · exact rightInside body after

theorem takesLiterals_repeats (rounds : Nat) {text : List Char} {way : Way}
    (found : way ∈ repeats true quotedPattern.ways rounds text) : TakesLiterals text way := by
  have none (text : List Char) : TakesLiterals text .stop := ⟨rfl, [], text, rfl, rfl, by simp⟩
  induction rounds generalizing text way with
  | zero =>
      obtain rfl := List.mem_singleton.mp found
      exact none text
  | succ rounds ih =>
      simp only [repeats, if_true, List.mem_append, List.mem_singleton] at found
      rcases found with more | rfl
      · simp only [continued, List.mem_flatMap, List.mem_map, List.mem_filter] at more
        obtain ⟨first, ⟨firstFound, -⟩, next, nextFound, rfl⟩ := more
        exact (takesLiterals_quoted firstFound).andThen (ih nextFound)
      · exact none text

theorem head?_literals {rest body : List Char} (closed : literalBody? rest = some body) :
    ∃ way, TakesLiterals ('"' :: rest) way ∧ way.taken ≠ [] ∧
      (literalPattern.ways ('"' :: rest)).head? = some (way.named "literal") := by
  obtain ⟨after, rfl, inside⟩ := literalBody?_eq_some.mp closed
  have first : TakesLiterals ('"' :: (body ++ '"' :: after)) ⟨(literal body).text, []⟩ :=
    takesLiterals_quoted (by rw [ways_quoted, closed]; simp)
  have behind : ('"' :: (body ++ '"' :: after)).drop (literal body).text.length = after := by
    simp [Segment.text]
  cases more : (Pattern.greedy quotedPattern).ways after with
  | nil =>
      rw [ways] at more
      cases after with
      | nil => simp [repeats] at more
      | cons char after => simp [repeats] at more
  | cons way fewer =>
      have next : TakesLiterals after way := by
        apply takesLiterals_repeats after.length
        rw [ways] at more
        simp [more]
      refine ⟨Way.andThen ⟨(literal body).text, []⟩ way, first.andThen (behind.symm ▸ next),
        by simp [Segment.text], ?_⟩
      rw [literalPattern, ways, ways, ways_quoted, closed]
      simp [continued, behind, more]

def lineWay (body : List Char) : Way :=
  ⟨(lineComment body).text,
    [⟨"single", [], (lineComment body).text⟩, ⟨"single_content", ['/', '/'], body⟩]⟩

def blockWay (body : List Char) : Way :=
  ⟨(blockComment body).text,
    [⟨"multi", [], (blockComment body).text⟩, ⟨"multi_content", ['/', '*'], body⟩]⟩

def openerWay : Way := ⟨['/', '*'], [⟨"error", [], ['/', '*']⟩]⟩

theorem ways_line (rest : List Char) :
    linePattern.ways ('/' :: '/' :: rest) = [lineWay (lineBody rest)] := by
  have longest := runs_flatMap (fun char => decide (char ≠ '\n')) rest
    (fun run after => (Pattern.lineEnd.ways after).map
      (Way.andThen (Way.named "single_content" ⟨run, []⟩))) (by
        intro run char after accepted
        simp only [decide_eq_true_eq] at accepted
        simp [ways, accepted])
  have ended : Pattern.lineEnd.ways (rest.dropWhile fun char => decide (char ≠ '\n')) = [.stop] :=
    if_pos (dropWhile_boundary rest)
  have content : (Pattern.seq (.group "single_content" (.greedy (.one (· ≠ '\n')))) .lineEnd).ways
      rest = [Way.named "single_content" ⟨lineBody rest, []⟩] := by
    rw [ways, continued, ways, ways_greedy_one, List.map_map, List.flatMap_map]
    refine longest.trans ?_
    rw [ended]
    simp [Way.andThen, Way.stop, Way.named, lineBody]
  rw [linePattern, ways, ways_exactly_seq, ways_exactly_seq, content]
  rfl

theorem ways_lazy_any (text : List Char) :
    (Pattern.lazy (.one fun _ => true)).ways text = text.inits.map fun run => ⟨run, []⟩ := by
  induction text with
  | nil => rfl
  | cons char rest ih =>
      rw [ways_lazy_one, ih]
      simp [Way.andThen, Way.stop]

theorem head?_inits_closer {β : Type} (text : List Char) (mark : List Char → β) :
    (text.inits.flatMap fun run =>
      if closer <+: text.drop run.length then [mark run] else []).head? =
        (blockBody? text).map mark := by
  fun_induction blockBody? text generalizing mark with
  | case1 => simp
  | case2 char => simp [closer]
  | case3 char next rest here => simp [here, closer]
  | case4 char next rest here ih =>
      have later := ih (fun run => mark (char :: run))
      have outside : ¬closer <+: char :: next :: rest := by
        simpa [closer, List.cons_prefix_cons, eq_comm] using here
      rw [List.inits_cons, List.flatMap_cons, List.flatMap_map, List.length_nil, List.drop_zero,
        if_neg outside, List.nil_append, Option.map_map]
      exact later

theorem ways_closer (text : List Char) :
    (Pattern.seq (exactly '*') (exactly '/')).ways text =
      if closer <+: text then [⟨closer, []⟩] else [] := by
  rcases text with _ | ⟨char, _ | ⟨next, rest⟩⟩
  · rfl
  · simp [ways, ways_exactly, continued, closer]
  · by_cases star : char = '*'
    · by_cases slash : next = '/'
      · simp [ways, ways_exactly, continued, closer, star, slash, Way.andThen]
      · simp [ways, ways_exactly, continued, closer, star, slash, Ne.symm slash]
    · simp [ways, ways_exactly, continued, closer, star, Ne.symm star]

theorem head?_block (rest : List Char) :
    (blockPattern.ways ('/' :: '*' :: rest)).head? = (blockBody? rest).map blockWay := by
  have nearest := head?_inits_closer rest fun run =>
    (Way.named "multi_content" ⟨run, []⟩).andThen ⟨closer, []⟩
  have content : ((Pattern.seq (.group "multi_content" (.lazy (.one fun _ => true)))
      (.seq (exactly '*') (exactly '/'))).ways rest).head? = (blockBody? rest).map fun run =>
        (Way.named "multi_content" ⟨run, []⟩).andThen ⟨closer, []⟩ := by
    rw [← nearest, ways, continued, ways, ways_lazy_any, List.map_map, List.flatMap_map]
    simp only [ways_closer, Function.comp_apply, Way.named_taken, apply_ite, List.map_cons,
      List.map_nil]
  rw [blockPattern, ways, ways_exactly_seq, ways_exactly_seq]
  simp only [List.head?_map, content, Option.map_map]
  rfl

theorem ways_opener (rest : List Char) : openerPattern.ways ('/' :: '*' :: rest) = [openerWay] := by
  rw [openerPattern, ways, ways_exactly_seq, ways_exactly]
  rfl

theorem ways_literals_of_open {char : Char} {rest : List Char}
    (unquoted : ¬(char = '"' ∧ ClosesOnLine rest)) : literalPattern.ways (char :: rest) = [] := by
  have none : quotedPattern.ways (char :: rest) = [] := by
    by_cases quote : char = '"'
    · subst quote
      have missing := literalBody?_eq_none.mpr fun closes => unquoted ⟨rfl, closes⟩
      rw [ways_quoted, missing]
      rfl
    · exact ways_exactly_seq_of_ne _ (by simpa using quote)
  rw [literalPattern, ways, ways, none]
  rfl

theorem ways_comment_of_silent {char : Char} {rest : List Char} (silent : ¬OpensComment char rest) :
    linePattern.ways (char :: rest) = [] ∧ blockPattern.ways (char :: rest) = [] ∧
      openerPattern.ways (char :: rest) = [] := by
  by_cases slash : char = '/'
  · subst slash
    have noSlash : rest.head? ≠ some '/' := fun head => silent ⟨rfl, .inl head⟩
    have noStar : rest.head? ≠ some '*' := fun head => silent ⟨rfl, .inr head⟩
    refine ⟨?_, ?_, ?_⟩
    · rw [linePattern, ways, ways_exactly_seq, ways_exactly_seq_of_ne _ noSlash]
      rfl
    · rw [blockPattern, ways, ways_exactly_seq, ways_exactly_seq_of_ne _ noStar]
      rfl
    · rw [openerPattern, ways, ways_exactly_seq, ways_exactly, if_neg noStar]
      rfl
  · have other : (char :: rest).head? ≠ some '/' := by simpa using slash
    refine ⟨?_, ?_, ?_⟩
    · rw [linePattern, ways, ways_exactly_seq_of_ne _ other]
      rfl
    · rw [blockPattern, ways, ways_exactly_seq_of_ne _ other]
      rfl
    · rw [openerPattern, ways, ways_exactly_seq_of_ne _ other]
      rfl

theorem head?_code {char : Char} {rest : List Char} (stands : (code char).Stands rest) :
    (commentPattern.ways (char :: rest)).head? = none := by
  obtain ⟨line, block, opener⟩ := ways_comment_of_silent stands.2
  rw [commentPattern, ways, ways, ways, ways_literals_of_open stands.1, line, block, opener]
  rfl

theorem head?_line (rest : List Char) :
    (commentPattern.ways ('/' :: '/' :: rest)).head? = some (lineWay (lineBody rest)) := by
  rw [commentPattern, ways, ways, ways_literals_of_open (by simp), ways_line]
  rfl

theorem head?_opened (rest : List Char) :
    (commentPattern.ways ('/' :: '*' :: rest)).head? =
      some (((blockBody? rest).map blockWay).getD openerWay) := by
  have line : linePattern.ways ('/' :: '*' :: rest) = [] := by
    rw [linePattern, ways, ways_exactly_seq, ways_exactly_seq_of_ne _ (by simp)]
    rfl
  rw [commentPattern, ways, ways, ways, ways_literals_of_open (by simp), line, ways_opener]
  simp only [List.nil_append, List.head?_append, head?_block]
  cases blockBody? rest <;> rfl

theorem comments_literals (index : LineIndex) (offset : Nat) (bodies : List (List Char))
    (rest : List Char) (inside : ∀ body ∈ bodies, '"' ∉ body ∧ '\n' ∉ body) :
    comments index offset (ofText (bodies.flatMap (fun body => (literal body).text) ++ rest)) =
      comments index
        (offset + byteLength (bodies.flatMap fun body => (literal body).text)) (ofText rest) := by
  induction bodies generalizing offset with
  | nil => rfl
  | cons body bodies ih =>
      have stands : (literal body).Stands
          (bodies.flatMap (fun body => (literal body).text) ++ rest) :=
        inside body List.mem_cons_self
      rw [List.flatMap_cons, List.append_assoc, ofText_append stands, comments,
        ih _ fun other member => inside other (List.mem_cons_of_mem body member),
        byteLength_append, Nat.add_assoc]

/-- What the matches give from a place on that has `before` in front of it. -/
def matchedFrom (index : LineIndex) (before text : List Char) : Extracted :=
  matchedComments index (commentPattern.matchesFrom 0 before text)

theorem matchedFrom_code (index : LineIndex) (before : List Char) {char : Char} {rest : List Char}
    (stands : (code char).Stands rest) :
    matchedFrom index before ((code char).text ++ rest) =
      matchedFrom index (before ++ (code char).text) rest :=
  congrArg (matchedComments index) (matchesFrom_miss (head?_code stands) before)

theorem matchedFrom_line (index : LineIndex) (before : List Char) {body rest : List Char}
    (stands : (lineComment body).Stands rest) :
    matchedFrom index before ((lineComment body).text ++ rest) =
      (matchedFrom index (before ++ (lineComment body).text) rest).map
        (⟨String.ofList body, .line (index.lineOf (byteLength before))⟩ :: ·) := by
  have hit : (commentPattern.ways ((lineWay body).taken ++ rest)).head? = some (lineWay body) := by
    refine (head?_line (body ++ rest)).trans ?_
    rw [lineBody_append stands.1 stands.2]
  have found := matchesFrom_hit hit (by simp [lineWay, Segment.text]) before
  refine (congrArg (matchedComments index) found).trans ?_
  simp [matchedComments, matchedFrom, lineWay, Way.group?, content]

theorem matchedFrom_block (index : LineIndex) (before : List Char) {body rest : List Char}
    (stands : (blockComment body).Stands rest) :
    matchedFrom index before ((blockComment body).text ++ rest) =
      (matchedFrom index (before ++ (blockComment body).text) rest).map
        (⟨String.ofList body, .lines (index.lineOf (byteLength before))
          (index.lineOf (byteLength before + byteLength (blockComment body).text))⟩ :: ·) := by
  have hit : (commentPattern.ways ((blockWay body).taken ++ rest)).head? =
      some (blockWay body) := by
    have opened := head?_opened (body ++ closer ++ rest)
    rw [blockBody?_append ((nearestCloser_iff body).mp stands) rest] at opened
    exact opened
  have found := matchesFrom_hit hit (by simp [blockWay, Segment.text]) before
  refine (congrArg (matchedComments index) found).trans ?_
  simp [matchedComments, matchedFrom, blockWay, Way.group?, content]

theorem matchedFrom_unclosed (index : LineIndex) (before : List Char) {body rest : List Char}
    (stands : (unclosed body).Stands rest) :
    matchedFrom index before ((unclosed body).text ++ rest) = .error .blockComment := by
  obtain ⟨absent, rfl⟩ := stands
  have hit : (commentPattern.ways (openerWay.taken ++ body)).head? = some openerWay := by
    have opened := head?_opened body
    rw [blockBody?_eq_none.mpr absent] at opened
    exact opened
  have found := matchesFrom_hit hit (by simp [openerWay]) before
  rw [List.append_nil]
  refine (congrArg (matchedComments index) found).trans ?_
  simp [matchedComments, openerWay, Way.group?]

/-- One match passes over a literal and those that follow it without a gap. -/
theorem matchedFrom_literal (index : LineIndex) (before : List Char) {body rest : List Char}
    (stands : (literal body).Stands rest) :
    ∃ (bodies : List (List Char)) (beyond : List Char),
      (literal body).text ++ rest = bodies.flatMap (fun body => (literal body).text) ++ beyond ∧
      bodies ≠ [] ∧ (∀ body ∈ bodies, '"' ∉ body ∧ '\n' ∉ body) ∧
      matchedFrom index before ((literal body).text ++ rest) =
        matchedFrom index (before ++ bodies.flatMap fun body => (literal body).text) beyond := by
  have closed : literalBody? (body ++ '"' :: rest) = some body :=
    literalBody?_eq_some.mpr ⟨rest, rfl, stands⟩
  have whole : (literal body).text ++ rest = '"' :: (body ++ '"' :: rest) := by
    simp [Segment.text]
  obtain ⟨way, ⟨groups, bodies, beyond, covered, taken, inside⟩, progress, preferred⟩ :=
    head?_literals closed
  have hit : (commentPattern.ways ((way.named "literal").taken ++ beyond)).head? =
      some (way.named "literal") := by
    rw [Way.named_taken, ← covered, commentPattern, ways, List.head?_append, preferred]
    rfl
  refine ⟨bodies, beyond, by rw [whole, covered, taken], ?_, inside, ?_⟩
  · rintro rfl
    exact progress taken
  · have found := matchesFrom_hit hit progress before
    rw [whole, covered, ← taken]
    refine (congrArg (matchedComments index) found).trans ?_
    simp [matchedComments, matchedFrom, Way.named, Way.group?, groups]

/-- The matches from left to right give the comments of the segments. The induction is
on the length of the text, since one match may cover several segments. -/
theorem matchedFrom_eq (index : LineIndex) (text before : List Char) :
    matchedFrom index before text = comments index (byteLength before) (ofText text) := by
  induction size : text.length using Nat.strongRecOn generalizing text before with
  | ind count ih =>
      cases text with
      | nil => rfl
      | cons char rest =>
          obtain ⟨after, split, stands⟩ := first_stands char rest
          have later (beyond : List Char) (less : beyond.length < count) (before : List Char) :=
            ih beyond.length less beyond before rfl
          rw [← split] at size ⊢
          generalize first char rest = segment at stands size ⊢
          have shorter : after.length < count := by
            have positive := List.length_pos_iff.mpr segment.text_ne_nil
            rw [← size, List.length_append]
            omega
          have found := ofText_append stands
          cases segment with
          | code single =>
              rw [matchedFrom_code index before stands, later after shorter, found, comments,
                byteLength_append]
          | literal body =>
              obtain ⟨bodies, beyond, covered, some, inside, passed⟩ :=
                matchedFrom_literal index before stands
              have less : beyond.length < count := by
                obtain ⟨first, others, rfl⟩ := List.exists_cons_of_ne_nil some
                rw [← size, covered]
                simp [Segment.text]
                omega
              rw [passed, later beyond less, covered, byteLength_append,
                comments_literals index _ bodies beyond inside]
          | lineComment body =>
              rw [matchedFrom_line index before stands, later after shorter, found, comments,
                byteLength_append]
          | blockComment body =>
              rw [matchedFrom_block index before stands, later after shorter, found, comments,
                byteLength_append]
          | unclosed body =>
              rw [matchedFrom_unclosed index before stands, found, comments]

/-- Searching for the expression and cutting into segments find the same comments. -/
theorem searched_eq (text : List Char) : searched text = extract text :=
  matchedFrom_eq (LineIndex.ofChars text) text []

/-- Every text has exactly one decomposition into segments. It is unterminated exactly
when the last of them is an unclosed comment, and otherwise its comments are those of
the segments, in order; searching for the expression finds the same. -/
theorem extract_reads_segments (text : List Char) :
    searched text = extract text ∧
    ∃ segments, (∀ other, grammar.Decomposes text other ↔ other = segments) ∧
      (extract text = .error .blockComment ↔
        ∃ body, segments.getLast? = some (unclosed body)) ∧
      ((∃ body, segments.getLast? = some (unclosed body)) ∨
        ∃ comments, extract text = .ok comments ∧
          comments.map Comment.record = segments.filterMap fun segment => segment.role.record?) := by
  obtain ⟨segments, only⟩ := Grammar.decomposition_unique lawful text
  have cut := (only segments).mpr rfl
  have outcome := Grammar.reading_outcome lawful cut 1
  rw [← extract_eq_reading cut, endsUnclosed_iff] at outcome
  exact ⟨searched_eq text, segments, only, outcome⟩

end SourceComments.Segment
