import SourceComments.Proofs.Shielding

/-! What the memory of the automaton says of the text read.

Outside of comments the buffer is empty. Inside one it holds what stands behind the opener, but
for a star that may belong to the closer, and the lines of a block comment are told by the
newlines in the buffer. So a comment is finished only with lines that are in order. -/

namespace SourceComments

namespace Mode

variable {mode next : Mode} {char : Char} {effect : Effect}

theorem step_slash (step : mode.step char = (.slash, effect)) : char = '/' := by
  cases mode <;> simp only [Mode.step] at step <;> grind

/-- Outside of comments, a step stays there or opens a comment behind a slash. -/
theorem step_quiet (step : mode.step char = (next, effect)) (quiet : mode.isComment = false) :
    next.isComment = false ∧ effect = .pass ∨
      mode = .slash ∧ (char = '/' ∧ next = .lineComment ∧ effect = .pass ∨
        char = '*' ∧ next = .blockComment ∧ effect = .openBlock) := by
  cases mode <;> simp only [Mode.step] at step <;> grind [isComment]

theorem step_emitBlock (step : mode.step char = (next, .emitBlock)) : mode = .blockStar := by
  cases mode <;> simp only [Mode.step] at step <;> grind

end Mode

namespace Automaton

/-- Where in the text the automaton stands: outside of comments, perhaps right behind a slash, or
behind the opener of a comment whose body it has read so far. In a block comment that is not
about to close the body does not end with a star. -/
inductive Stage : List Char → Automaton → Prop where
  | outside (text : List Char) {mode : Mode} (line first last : Nat) (done : Array Comment)
      (quiet : mode.isComment = false) (slash : mode = .slash → ['/'] <:+ text) :
      Stage text ⟨mode, line, first, last, "", done⟩
  | line (front : List Char) {body : List Char} (line first last : Nat) (done : Array Comment)
      (inside : '\n' ∉ body) :
      Stage (front ++ '/' :: '/' :: body)
        ⟨.lineComment, line, first, last, String.ofList body, done⟩
  | block (front : List Char) {body : List Char} {first : Nat} {done : Array Comment}
      {state : Automaton} (reads : ReadsBlock first done body state) (absent : ¬closer <:+: body)
      (unstarred : state.mode = .blockComment → body.getLast? ≠ some '*') :
      Stage (front ++ '/' :: '*' :: body) state

section

variable {text body : List Char} {state : Automaton} {first : Nat} {done : Array Comment}

/-- A star in a block comment is always held back. -/
theorem ReadsBlock.feed_star (reads : ReadsBlock first done body state) :
    (state.feed '*').mode = .blockStar := by
  cases reads <;> rfl

/-- In code the automaton may stand anywhere. -/
theorem Stage.code (text : List Char) (line first last : Nat) (done : Array Comment) :
    Stage text ⟨.code, line, first, last, "", done⟩ :=
  .outside text line first last done rfl nofun

theorem Stage.feed (stage : Stage text state) (char : Char) :
    Stage (text ++ [char]) (state.feed char) := by
  cases stage with
  | @outside _ mode line first last done quiet slash =>
      rcases step : mode.step char with ⟨next, effect⟩
      rw [feed_mk line first last "" done step]
      rcases Mode.step_quiet step quiet with ⟨quietToo, rfl⟩ | ⟨behind, opened⟩
      · refine .outside _ _ _ _ _ quietToo ?_
        rintro rfl
        rw [Mode.step_slash step]
        exact List.suffix_append text ['/']
      · obtain ⟨front, rfl⟩ := slash behind
        rw [List.append_assoc]
        rcases opened with ⟨rfl, rfl, rfl⟩ | ⟨rfl, rfl, rfl⟩
        · exact .line front line first last done List.not_mem_nil
        · exact .block front (.settled [] last) (by simp [closer]) (by simp)
  | line front line first last done inside =>
      by_cases newline : char = '\n'
      · subst newline
        exact .code _ _ _ _ _
      · rw [feed_line_char line first last _ done newline, push_ofList, List.append_assoc]
        exact .line front line first last done (by simp [inside, Ne.symm newline])
  | @block front body first done state reads absent unstarred =>
      by_cases closes : closer <:+: body ++ [char]
      · -- Only a slash right behind a star that was held back closes the comment.
        obtain ⟨rfl, starred⟩ := ((closer_infix_snoc body char).mp closes).resolve_left absent
        cases reads with
        | settled => exact absurd starred (unstarred rfl)
        | held body => exact .code _ _ _ _ _
      · have onward := reads.feed closes
        rw [List.append_assoc, List.cons_append, List.cons_append]
        refine .block front onward closes ?_
        rintro settled starred
        rw [List.getLast?_concat, Option.some.injEq] at starred
        rw [starred, reads.feed_star] at settled
        cases settled

theorem stage_run (text : List Char) : Stage text (run text) := by
  induction text using List.reverseRecOn with
  | nil => exact .code [] 1 1 1 #[]
  | append_singleton text char ih =>
      rw [run, List.foldl_append]
      exact ih.feed char

/-- The lines noted for block comments, and those of the finished comments. -/
structure Lined (state : Automaton) : Prop where
  start : 1 ≤ state.blockStart ∧ state.blockStart ≤ state.line
  stop : 1 ≤ state.blockEnd ∧ state.blockEnd ≤ state.line
  comments : ∀ comment ∈ state.comments,
    1 ≤ comment.firstLine ∧ comment.firstLine ≤ comment.lastLine ∧ comment.lastLine ≤ state.line

theorem Lined.positive (lined : Lined state) : 1 ≤ state.line :=
  Nat.le_trans lined.start.1 lined.start.2

theorem Lined.advance (lined : Lined state) (count : Nat) :
    Lined { state with line := state.line + count } where
  start := ⟨lined.start.1, Nat.le_add_right_of_le lined.start.2⟩
  stop := ⟨lined.stop.1, Nat.le_add_right_of_le lined.stop.2⟩
  comments := by
    intro comment member
    obtain ⟨positive, ordered, past⟩ := lined.comments comment member
    exact ⟨positive, ordered, Nat.le_add_right_of_le past⟩

theorem Lined.push (lined : Lined state) {comment : Comment} (positive : 1 ≤ comment.firstLine)
    (ordered : comment.firstLine ≤ comment.lastLine) (past : comment.lastLine ≤ state.line) :
    ∀ finished ∈ state.comments.push comment, 1 ≤ finished.firstLine ∧
      finished.firstLine ≤ finished.lastLine ∧ finished.lastLine ≤ state.line := by
  intro finished member
  rcases Array.mem_push.mp member with earlier | rfl
  · exact lined.comments finished earlier
  · exact ⟨positive, ordered, past⟩

theorem Lined.apply (lined : Lined state) {effect : Effect}
    (closes : effect = .emitBlock → state.blockStart ≤ state.blockEnd) :
    Lined (state.apply effect) := by
  cases effect with
  | pass | keep | keepStar | keepStarAnd => exact ⟨lined.start, lined.stop, lined.comments⟩
  | openBlock => exact ⟨⟨lined.positive, Nat.le_refl _⟩, lined.stop, lined.comments⟩
  | markBlockEnd => exact ⟨lined.start, ⟨lined.positive, Nat.le_refl _⟩, lined.comments⟩
  | emitLine =>
      exact ⟨lined.start, lined.stop, lined.push lined.positive (Nat.le_refl _) (Nat.le_refl _)⟩
  | emitBlock =>
      exact ⟨lined.start, lined.stop, lined.push lined.start.1 (closes rfl) lined.stop.2⟩

theorem Lined.feed (lined : Lined state)
    (closes : state.mode = .blockStar → state.blockStart ≤ state.blockEnd) (char : Char) :
    Lined (state.feed char) := by
  obtain ⟨mode, line, first, last, buffer, done⟩ := state
  rcases step : mode.step char with ⟨next, effect⟩
  rw [feed_mk line first last buffer done step]
  have entered : Lined ⟨next, line, first, last, buffer, done⟩ :=
    ⟨lined.start, lined.stop, lined.comments⟩
  have applied : Lined (Automaton.apply ⟨next, line, first, last, buffer, done⟩ effect) := by
    apply entered.apply
    rintro rfl
    exact closes (Mode.step_emitBlock step)
  have same : (Automaton.apply ⟨next, line, first, last, buffer, done⟩ effect).line = line := by
    cases effect <;> rfl
  have onward := applied.advance ([char].count '\n')
  rw [same] at onward
  exact onward

theorem Stage.of_lineComment (stage : Stage text state) (mode : state.mode = .lineComment) :
    '/' :: '/' :: state.buffer.toList <:+ text ∧ '\n' ∉ state.buffer.toList := by
  cases stage with
  | outside _ _ _ _ _ quiet =>
      obtain rfl := mode
      cases quiet
  | line front _ _ _ _ inside =>
      rw [String.toList_ofList]
      exact ⟨List.suffix_append front _, inside⟩
  | block front reads => cases reads <;> cases mode

theorem Stage.of_blockComment (stage : Stage text state) (mode : state.mode = .blockComment) :
    '/' :: '*' :: state.buffer.toList <:+ text ∧ ¬closer <:+: state.buffer.toList ∧
      state.line = state.blockStart + state.buffer.toList.count '\n' := by
  cases stage with
  | outside _ _ _ _ _ quiet =>
      obtain rfl := mode
      cases quiet
  | line => cases mode
  | block front reads absent =>
      cases reads with
      | settled body =>
          rw [String.toList_ofList]
          exact ⟨List.suffix_append front _, absent, rfl⟩
      | held => cases mode

theorem Stage.of_blockStar (stage : Stage text state) (mode : state.mode = .blockStar) :
    '/' :: '*' :: state.buffer.toList ++ ['*'] <:+ text ∧
      ¬closer <:+: state.buffer.toList ++ ['*'] ∧ state.blockEnd = state.line ∧
      state.line = state.blockStart + state.buffer.toList.count '\n' := by
  cases stage with
  | outside _ _ _ _ _ quiet =>
      obtain rfl := mode
      cases quiet
  | line => cases mode
  | block front reads absent =>
      cases reads with
      | settled => cases mode
      | held body =>
          rw [String.toList_ofList]
          exact ⟨List.suffix_append front _, absent, rfl, rfl⟩

theorem lined_run (text : List Char) : Lined (run text) := by
  induction text using List.reverseRecOn with
  | nil => exact ⟨⟨Nat.le_refl 1, Nat.le_refl 1⟩, ⟨Nat.le_refl 1, Nat.le_refl 1⟩, nofun⟩
  | append_singleton text char ih =>
      rw [run, List.foldl_append]
      refine ih.feed ?_ char
      intro mode
      obtain ⟨-, -, last, counted⟩ := (stage_run text).of_blockStar mode
      rw [last, counted]
      exact Nat.le_add_right _ _

end

/-- What the automaton remembers of a text. In every mode the lines are in order; in a comment
the buffer is the text behind the opener, and tells how many lines ago the comment began. -/
structure Remembers (text : List Char) (state : Automaton) : Prop extends
    Tracks text state, Lined state where
  lineComment : state.mode = .lineComment →
    '/' :: '/' :: state.buffer.toList <:+ text ∧ '\n' ∉ state.buffer.toList
  blockComment : state.mode = .blockComment →
    '/' :: '*' :: state.buffer.toList <:+ text ∧ ¬closer <:+: state.buffer.toList ∧
      state.line = state.blockStart + state.buffer.toList.count '\n'
  blockStar : state.mode = .blockStar →
    '/' :: '*' :: state.buffer.toList ++ ['*'] <:+ text ∧
      ¬closer <:+: state.buffer.toList ++ ['*'] ∧ state.blockEnd = state.line ∧
      state.line = state.blockStart + state.buffer.toList.count '\n'

/-- Whatever text has been read, the memory of the automaton tells of it. -/
theorem run_remembers (text : List Char) : Remembers text (run text) where
  toTracks := tracks_run text
  toLined := lined_run text
  lineComment := (stage_run text).of_lineComment
  blockComment := (stage_run text).of_blockComment
  blockStar := (stage_run text).of_blockStar

end Automaton

end SourceComments
