import SourceComments.Glob.Match
import SourceComments.Proofs.Glob.Pieces

/-! Patterns for everything inside directories of one name.

The pattern of a name between two double stars matches a text exactly if the name is one of
its pieces and not the last. The first double star tries what stands behind each slash, from
the left. An attempt that runs out of text has reached the last piece, so the search never
gives up before a match. -/

namespace SourceComments.Glob

/-- The text has the name between two slashes, or between its beginning and a slash. -/
def Encloses (name text : List Char) : Prop :=
  ∃ front back, text = front ++ name ++ '/' :: back ∧ (front = [] ∨ front.getLast? = some '/')

/-- The tokens of everything at the top of which stands a directory of this name. -/
def inside (name : List Char) : List Token := name.map .char ++ [.char '/', .anyDirectories]

/-- The tokens of everything inside directories of this name, wherever they stand. -/
def enclosure (name : List Char) : List Token := .anyDirectories :: inside name

section

variable {name text rest : List Char}

theorem reads_clear (clear : ∀ char ∈ name, isSpecial char = false) {opens : Bool}
    {found : List Token} (later : Reads true rest found) :
    Reads opens (name ++ '/' :: rest) (name.map .char ++ .char '/' :: found) := by
  induction name generalizing opens with
  | nil => exact .char (by decide) later
  | cons char name ih =>
      refine .char (clear char List.mem_cons_self) ?_
      exact ih fun other member => clear other (List.mem_cons_of_mem char member)

/-- How a name between double stars is read. -/
theorem tokens_enclosure (clear : ∀ char ∈ name, isSpecial char = false) :
    tokens (['*', '*', '/'] ++ name ++ ['/', '*', '*']) = .ok (enclosure name) := by
  rw [tokens_eq_ok, List.append_assoc]
  exact .directories (reads_clear clear .allDirectories)

theorem mem_afterSlashes :
    rest ∈ afterSlashes text ↔ rest = [] ∨ ∃ front, text = front ++ '/' :: rest := by
  induction text with
  | nil => simp [afterSlashes]
  | cons char text ih =>
      have step : (∃ front, char :: text = front ++ '/' :: rest) ↔
          (char = '/' ∧ rest = text) ∨ ∃ front, text = front ++ '/' :: rest := by
        constructor
        · rintro ⟨front, split⟩
          cases front with
          | nil =>
              obtain ⟨rfl, rfl⟩ := List.cons.inj split
              exact .inl ⟨rfl, rfl⟩
          | cons first front => exact .inr ⟨front, (List.cons.inj split).2⟩
        · rintro (⟨rfl, rfl⟩ | ⟨front, rfl⟩)
          · exact ⟨[], rfl⟩
          · exact ⟨char :: front, rfl⟩
      rw [step, afterSlashes]
      split
      · rename_i slash
        rw [List.mem_cons, ih]
        simp [slash, or_left_comm]
      · rename_i other
        rw [ih]
        simp [other]

/-- A double star at the end takes the rest, whatever it is. -/
theorem judge_trailing (text : List Char) : judge [.anyDirectories] text = .hit := by
  have last (texts : List (List Char)) (ends : [] ∈ texts) :
      firstDecided (judge []) texts = .hit := by
    induction texts with
    | nil => cases ends
    | cons first texts ih =>
        cases first with
        | nil => rfl
        | cons char first =>
            rw [firstDecided, judge]
            exact ih ((List.mem_cons.mp ends).resolve_left (by simp))
  rw [judge]
  exact last _ (List.mem_cons_of_mem text (mem_afterSlashes.mpr (.inl rfl)))

theorem judge_char (char first : Char) (found : List Token) (text : List Char) :
    judge (.char char :: found) (first :: text) =
      if first = char then judge found text else .miss := by
  rw [judge, Token.accepts]
  · simp
  · simp
  · simp

/-- Plain characters in front of other tokens: they stand at the beginning of the text, the
text ends among them, or it differs from them. -/
theorem judge_chars (name text : List Char) (found : List Token) :
    (∃ rest, text = name ++ rest ∧ judge (name.map .char ++ found) text = judge found rest) ∨
    (text <+: name ∧ judge (name.map .char ++ found) text = .exhausted) ∨
    (¬name <+: text ∧ judge (name.map .char ++ found) text = .miss) := by
  induction name generalizing text with
  | nil => exact .inl ⟨text, rfl, rfl⟩
  | cons char name ih =>
      cases text with
      | nil => exact .inr (.inl ⟨List.nil_prefix, rfl⟩)
      | cons first text =>
          rw [List.map_cons, List.cons_append, judge_char]
          by_cases same : first = char
          · subst same
            simp only [if_true, List.prefix_cons_inj, List.cons_append, List.cons.injEq, true_and]
            exact ih text
          · rw [if_neg same]
            refine .inr (.inr ⟨?_, rfl⟩)
            intro start
            exact same (List.cons_prefix_cons.mp start).1.symm

theorem judge_inside_eq_hit :
    judge (inside name) text = .hit ↔ ∃ back, text = name ++ '/' :: back := by
  constructor
  · intro hit
    rw [inside] at hit
    rcases judge_chars name text [.char '/', .anyDirectories] with
      ⟨rest, rfl, verdict⟩ | ⟨-, verdict⟩ | ⟨-, verdict⟩
    · rw [verdict] at hit
      cases rest with
      | nil => cases hit
      | cons first back =>
          rw [judge_char] at hit
          split at hit
          · rename_i slash
            exact ⟨back, by rw [slash]⟩
          · cases hit
    · rw [verdict] at hit
      cases hit
    · rw [verdict] at hit
      cases hit
  · rintro ⟨back, rfl⟩
    rw [inside]
    rcases judge_chars name (name ++ '/' :: back) [.char '/', .anyDirectories] with
      ⟨rest, same, verdict⟩ | ⟨short, -⟩ | ⟨other, -⟩
    · obtain rfl := List.append_cancel_left same
      rw [verdict, judge_char, if_pos rfl, judge_trailing]
    · have length := short.length_le
      simp only [List.length_append, List.length_cons] at length
      omega
    · exact absurd (List.prefix_append _ _) other

/-- An attempt is exhausted only on what stands behind the last slash. -/
theorem slash_not_mem_of_exhausted (plain : '/' ∉ name)
    (exhausted : judge (inside name) text = .exhausted) : '/' ∉ text := by
  rw [inside] at exhausted
  rcases judge_chars name text [.char '/', .anyDirectories] with
    ⟨rest, rfl, verdict⟩ | ⟨short, -⟩ | ⟨-, verdict⟩
  · rw [verdict] at exhausted
    cases rest with
    | nil => simpa using plain
    | cons first back =>
        rw [judge_char, judge_trailing] at exhausted
        split at exhausted <;> cases exhausted
  · exact fun slash => plain (short.subset slash)
  · rw [verdict] at exhausted
    cases exhausted

theorem eq_nil_of_mem_afterSlashes (plain : '/' ∉ text) (member : rest ∈ afterSlashes text) :
    rest = [] := by
  apply (mem_afterSlashes.mp member).resolve_right
  rintro ⟨front, rfl⟩
  simp at plain

/-- If attempts are exhausted only behind the last slash, the first decided one is a hit as
soon as any is. -/
theorem firstDecided_afterSlashes {attempt : List Char → Verdict}
    (late : ∀ text, attempt text = .exhausted → '/' ∉ text) (blank : attempt [] ≠ .hit)
    (text : List Char) :
    firstDecided attempt (text :: afterSlashes text) = .hit ↔
      ∃ rest ∈ text :: afterSlashes text, attempt rest = .hit := by
  -- Along the text: a slash puts one more attempt in front of those behind it.
  have decided (first : List Char) (others : List (List Char))
      (later : firstDecided attempt others = .hit ↔ ∃ rest ∈ others, attempt rest = .hit)
      (final : '/' ∉ first → ∀ rest ∈ others, rest = []) :
      firstDecided attempt (first :: others) = .hit ↔
        ∃ rest ∈ first :: others, attempt rest = .hit := by
    rw [firstDecided]
    cases verdict : attempt first with
    | hit => simp [verdict]
    | miss => simpa [verdict] using later
    | exhausted =>
        have last := final (late first verdict)
        constructor
        · intro impossible
          cases impossible
        · rintro ⟨rest, member, hit⟩
          rcases List.mem_cons.mp member with rfl | later
          · rw [verdict] at hit
            cases hit
          · rw [last rest later] at hit
            exact absurd hit blank
  have behind (text : List Char) : firstDecided attempt (afterSlashes text) = .hit ↔
      ∃ rest ∈ afterSlashes text, attempt rest = .hit := by
    induction text with
    | nil => exact decided [] [] (by simp [firstDecided]) (by simp)
    | cons char text ih =>
        rw [afterSlashes]
        split
        · exact decided text _ ih fun plain _ => eq_nil_of_mem_afterSlashes plain
        · exact ih
  exact decided text _ (behind text) fun plain _ => eq_nil_of_mem_afterSlashes plain

/-- A name between double stars matches what has the name in the middle of its way. -/
theorem matchTokens_enclosure (plain : '/' ∉ name) :
    matchTokens (enclosure name) text = true ↔ Encloses name text := by
  have late := fun text => @slash_not_mem_of_exhausted name text plain
  have blank : judge (inside name) [] ≠ .hit := by
    rw [Ne, judge_inside_eq_hit]
    simp
  rw [matchTokens, beq_iff_eq, enclosure, judge, firstDecided_afterSlashes late blank]
  simp only [judge_inside_eq_hit, List.mem_cons, mem_afterSlashes]
  constructor
  · rintro ⟨rest, here | empty | ⟨front, split⟩, back, spelled⟩
    · exact ⟨[], back, by rw [← here, spelled]; rfl, .inl rfl⟩
    · simp [empty] at spelled
    · refine ⟨front ++ ['/'], back, ?_, .inr (by simp)⟩
      rw [split, spelled]
      simp
  · rintro ⟨front, back, rfl, starts | ends⟩
    · exact ⟨_, .inl rfl, back, by simp [starts]⟩
    · obtain ⟨outer, rfl⟩ := List.getLast?_eq_some_iff.mp ends
      exact ⟨name ++ '/' :: back, .inr (.inr ⟨outer, by simp⟩), back, rfl⟩

end

/-- A text encloses a name exactly if the name is one of its pieces and not the last. -/
theorem encloses_iff_mem_pieces {name : String} (plain : '/' ∉ name.toList) {path : Path} :
    Encloses name.toList path.text.toList ↔ name ∈ path.pieces.dropLast := by
  have front (back : String) : (Path.mk (name ++ "/" ++ back)).pieces =
      name :: (Path.mk back).pieces := by
    rw [Path.pieces_append, Path.pieces_of_not_mem plain, List.singleton_append]
  constructor
  · rintro ⟨before, back, split, starts⟩
    have whole : path.text = String.ofList before ++ (name ++ "/" ++ String.ofList back) := by
      rw [← String.toList_inj, split]
      simp
    obtain rfl : path = ⟨String.ofList before ++ (name ++ "/" ++ String.ofList back)⟩ :=
      congrArg Path.mk whole
    have more := (Path.mk (String.ofList back)).pieces_ne_nil
    rcases starts with rfl | ends
    · rw [String.ofList_nil, String.empty_append, front, List.dropLast_cons_of_ne_nil more]
      exact List.mem_cons_self
    · obtain ⟨outer, rfl⟩ := List.getLast?_eq_some_iff.mp ends
      rw [String.ofList_append, show String.ofList ['/'] = "/" from rfl, Path.pieces_append, front,
        List.dropLast_append_of_ne_nil (by simp), List.dropLast_cons_of_ne_nil more]
      exact List.mem_append_right _ List.mem_cons_self
  · intro member
    obtain ⟨before, after, split⟩ := List.append_of_mem member
    obtain ⟨rest, more, whole⟩ : ∃ rest, rest ≠ [] ∧ path.pieces = before ++ name :: rest := by
      refine ⟨after ++ [path.pieces.getLast path.pieces_ne_nil], by simp, ?_⟩
      rw [← List.cons_append, ← List.append_assoc, ← split, List.dropLast_append_getLast]
    have ending : (Path.ofPieces (name :: rest)).text.toList =
        name.toList ++ '/' :: (Path.ofPieces rest).text.toList := by
      have joined := @Path.intercalate_append [name] rest (by simp) more
      rw [Path.ofPieces, ← List.singleton_append, joined]
      simp [Path.ofPieces]
    cases before with
    | nil =>
        refine ⟨[], (Path.ofPieces rest).text.toList, ?_, .inl rfl⟩
        rw [← path.ofPieces_pieces, whole, List.nil_append, ending, List.nil_append]
    | cons first before =>
        refine ⟨(Path.ofPieces (first :: before)).text.toList ++ ['/'],
          (Path.ofPieces rest).text.toList, ?_, .inr (by simp)⟩
        rw [Path.text_eq_append whole (by simp) (by simp), String.toList_append,
          String.toList_append, ending]
        simp

end SourceComments.Glob
