import SourceComments.Proofs.Glob
import Mathlib.Data.List.TakeDrop
import Mathlib.Data.List.TakeWhile

/-! Patterns and their pieces.

A pattern is read as a whole when it is checked, and piece by piece between its slashes when
it is followed. The two differ over brackets: a bracket that lists a slash is one token of
the whole pattern, and cut in two by its pieces. In all other respects a pattern can be read
exactly if its pieces can be. -/

namespace SourceComments.Glob

/-- How a pattern is read, where `opens` tells whether a path component starts. -/
inductive Reads : Bool → List Char → List Token → Prop
  | done {opens : Bool} : Reads opens [] []
  | anyChar {opens : Bool} {rest : List Char} {found : List Token}
      (later : Reads false rest found) : Reads opens ('?' :: rest) (.anyChar :: found)
  | allDirectories : Reads true ['*', '*'] [.anyDirectories]
  | directories {rest : List Char} {found : List Token} (later : Reads true rest found) :
      Reads true ('*' :: '*' :: '/' :: rest) (.anyDirectories :: found)
  | sequence {opens : Bool} {rest : List Char} {found : List Token}
      (single : rest.head? ≠ some '*') (later : Reads false rest found) :
      Reads opens ('*' :: rest) (.anySequence :: found)
  | outside {opens : Bool} {rest body after : List Char} {found : List Token}
      (closed : bracket? rest = some (body, after)) (later : Reads false after found) :
      Reads opens ('[' :: '!' :: rest) (.outside (ranges body) :: found)
  | within {opens : Bool} {rest body after : List Char} {found : List Token}
      (positive : rest.head? ≠ some '!') (closed : bracket? rest = some (body, after))
      (later : Reads false after found) :
      Reads opens ('[' :: rest) (.within (ranges body) :: found)
  | char {opens : Bool} {char : Char} {rest : List Char} {found : List Token}
      (clear : isSpecial char = false) (later : Reads (char == '/') rest found) :
      Reads opens (char :: rest) (.char char :: found)

/-- A closed bracket ends at the first closing bracket behind its first character. -/
theorem bracket?_eq_some {rest body after : List Char} :
    bracket? rest = some (body, after) ↔
      rest = body ++ ']' :: after ∧ body ≠ [] ∧ ']' ∉ body.tail := by
  cases rest with
  | nil => simp [bracket?]
  | cons first tail =>
      simp only [bracket?, List.span_eq_takeWhile_dropWhile]
      constructor
      · intro closed
        split at closed
        · cases closed
        · rename_i inner mark later split
          obtain ⟨rfl, rest⟩ := Prod.mk.inj split
          obtain ⟨rfl, rfl⟩ := Prod.mk.inj (Option.some.inj closed)
          have ends := List.head?_dropWhile_not (fun char => decide (char ≠ ']')) tail
          rw [rest] at ends
          obtain rfl : mark = ']' := by simpa using ends
          refine ⟨?_, by simp, ?_⟩
          · have whole := @List.takeWhile_append_dropWhile _ (fun char => decide (char ≠ ']')) tail
            rw [rest] at whole
            exact congrArg (first :: ·) whole.symm
          · intro member
            simpa using List.mem_takeWhile_imp member
      · rintro ⟨whole, some, inner⟩
        obtain ⟨head, body, rfl⟩ := List.exists_cons_of_ne_nil some
        obtain ⟨rfl, rfl⟩ := List.cons.inj whole
        have kept : ∀ char ∈ body, decide (char ≠ ']') = true := by
          intro char member
          rw [decide_eq_true_eq]
          rintro rfl
          exact inner member
        rw [show body.append (']' :: after) = body ++ ']' :: after from rfl,
          List.takeWhile_append_of_pos kept, List.dropWhile_append_of_pos kept]
        simp

theorem ok_of_map {token : Token} {read : Except PatternFault (List Token)} {found : List Token}
    (mapped : read.map (token :: ·) = .ok found) :
    ∃ later, read = .ok later ∧ found = token :: later := by
  cases read with
  | error fault => cases mapped
  | ok later => exact ⟨later, rfl, (Except.ok.inj mapped).symm⟩

theorem bracket?_length {rest body after : List Char}
    (closed : bracket? rest = some (body, after)) : after.length < rest.length := by
  rw [(bracket?_eq_some.mp closed).1, List.length_append, List.length_cons]
  omega

theorem reads_of_tokensFrom {fuel position : Nat} {opens : Bool} {text : List Char}
    {found : List Token} (enough : text.length ≤ fuel)
    (read : tokensFrom fuel position opens text = .ok found) : Reads opens text found := by
  fun_induction tokensFrom fuel position opens text generalizing found with
  | case1 position opens text =>
      obtain rfl : text = [] := List.length_eq_zero_iff.mp (Nat.le_zero.mp enough)
      obtain rfl := Except.ok.inj read
      exact .done
  | case2 =>
      obtain rfl := Except.ok.inj read
      exact .done
  | case3 fuel position opens rest ih =>
      obtain ⟨later, first, rfl⟩ := ok_of_map read
      exact .anyChar (ih (Nat.le_of_succ_le_succ enough) first)
  | case4 => cases read
  | case5 =>
      obtain rfl := Except.ok.inj read
      exact .allDirectories
  | case6 fuel position after single ih =>
      obtain ⟨later, first, rfl⟩ := ok_of_map read
      simp only [List.length_cons] at enough
      exact .directories (ih (by omega) first)
  | case7 => cases read
  | case8 => cases read
  | case9 fuel position opens rest noThree noTwo ih =>
      obtain ⟨later, first, rfl⟩ := ok_of_map read
      refine .sequence ?_ (ih (Nat.le_of_succ_le_succ enough) first)
      intro star
      obtain ⟨more, split⟩ := List.head?_eq_some_iff.mp star
      exact noTwo more split
  | case10 => cases read
  | case11 fuel position opens rest body after closed ih =>
      obtain ⟨later, first, rfl⟩ := ok_of_map read
      have shorter := bracket?_length closed
      simp only [List.length_cons] at enough
      exact .outside closed (ih (by omega) first)
  | case12 => cases read
  | case13 fuel position opens rest positive body after closed ih =>
      obtain ⟨later, first, rfl⟩ := ok_of_map read
      have shorter := bracket?_length closed
      simp only [List.length_cons] at enough
      refine .within ?_ closed (ih (by omega) first)
      intro mark
      obtain ⟨more, split⟩ := List.head?_eq_some_iff.mp mark
      exact positive more split
  | case14 fuel position opens char rest noQuestion _ _ noStar _ noBracket ih =>
      obtain ⟨later, first, rfl⟩ := ok_of_map read
      refine .char ?_ (ih (Nat.le_of_succ_le_succ enough) first)
      simp only [isSpecial, Bool.or_eq_false_iff, beq_eq_false_iff_ne]
      exact ⟨⟨noQuestion, noStar⟩, noBracket⟩

theorem tokensFrom_of_reads {fuel position : Nat} {opens : Bool} {text : List Char}
    {found : List Token} (reads : Reads opens text found) (enough : text.length ≤ fuel) :
    tokensFrom fuel position opens text = .ok found := by
  induction reads generalizing fuel position with
  | done => cases fuel <;> rfl
  | allDirectories =>
      rcases fuel with _ | fuel
      · cases enough
      rfl
  | anyChar later ih =>
      rcases fuel with _ | fuel
      · cases enough
      rw [tokensFrom, ih (Nat.le_of_succ_le_succ enough)]
      rfl
  | directories later ih =>
      rcases fuel with _ | fuel
      · cases enough
      simp only [List.length_cons] at enough
      rw [tokensFrom, if_pos rfl, ih (by omega)]
      rfl
  | sequence single later ih =>
      rcases fuel with _ | fuel
      · cases enough
      rw [tokensFrom, ih (Nat.le_of_succ_le_succ enough)]
      · rfl
      · rintro more rfl
        exact single rfl
      · rintro more rfl
        exact single rfl
  | outside closed later ih =>
      rcases fuel with _ | fuel
      · cases enough
      have shorter := bracket?_length closed
      simp only [List.length_cons] at enough
      rw [tokensFrom, closed]
      dsimp only
      rw [ih (by omega)]
      rfl
  | within positive closed later ih =>
      rcases fuel with _ | fuel
      · cases enough
      have shorter := bracket?_length closed
      simp only [List.length_cons] at enough
      rw [tokensFrom, closed]
      · dsimp only
        rw [ih (by omega)]
        rfl
      · rintro more rfl
        exact positive rfl
  | char clear later ih =>
      rcases fuel with _ | fuel
      · cases enough
      rw [tokensFrom_clear_cons clear, ih (Nat.le_of_succ_le_succ enough)]
      rfl

/-- The pattern can be read. -/
def Compiles (text : List Char) : Prop := ∃ found, tokens text = .ok found

theorem tokens_eq_ok {text : List Char} {found : List Token} :
    tokens text = .ok found ↔ Reads true text found := by
  constructor
  · exact reads_of_tokensFrom (Nat.le_refl _)
  · intro reads
    exact tokensFrom_of_reads reads (Nat.le_refl _)

/-- A bracket that lists a slash. -/
def Token.listsSlash : Token → Bool
  | .within ranges => ranges.any fun range => range.first == '/' || range.last == '/'
  | .outside ranges => ranges.any fun range => range.first == '/' || range.last == '/'
  | _ => false

theorem any_ranges_slash (body : List Char) :
    ((ranges body).any fun range => range.first == '/' || range.last == '/') = true ↔
      '/' ∈ body := by
  fun_induction ranges body with
  | case1 first last rest ih =>
      rw [List.any_cons, Bool.or_eq_true, ih]
      grind
  | case2 char rest _ ih =>
      rw [List.any_cons, Bool.or_eq_true, ih]
      grind
  | case3 => simp

theorem listsSlash_within {body : List Char} :
    (Token.within (ranges body)).listsSlash = true ↔ '/' ∈ body :=
  any_ranges_slash body

theorem listsSlash_outside {body : List Char} :
    (Token.outside (ranges body)).listsSlash = true ↔ '/' ∈ body :=
  any_ranges_slash body

theorem bracket?_append {rest body after : List Char} (closed : bracket? rest = some (body, after))
    (more : List Char) : bracket? (rest ++ more) = some (body, after ++ more) := by
  obtain ⟨rfl, some, inner⟩ := bracket?_eq_some.mp closed
  exact bracket?_eq_some.mpr ⟨by simp, some, inner⟩

theorem head?_append_slash {rest back : List Char} {char : Char} (other : char ≠ '/')
    (differs : rest.head? ≠ some char) : (rest ++ '/' :: back).head? ≠ some char := by
  cases rest with
  | nil => simpa using other.symm
  | cons first rest => exact differs

/-- A bracket lists a slash only where one is written. -/
theorem Reads.free {opens : Bool} {text : List Char} {found : List Token}
    (reads : Reads opens text found) (plain : '/' ∉ text) :
    ∀ token ∈ found, token.listsSlash = false := by
  induction reads with
  | done => simp
  | allDirectories => simp [Token.listsSlash]
  | directories next ih => simp at plain
  | anyChar next ih | sequence _ next ih | char _ next ih =>
      exact List.forall_mem_cons.mpr ⟨rfl, ih fun slash => plain (List.mem_cons_of_mem _ slash)⟩
  | @outside opens rest body after found closed next ih =>
      obtain ⟨rfl, -⟩ := bracket?_eq_some.mp closed
      refine List.forall_mem_cons.mpr ⟨?_, ih fun slash => plain (by simp [slash])⟩
      rw [← Bool.not_eq_true, listsSlash_outside]
      exact fun slash => plain (by simp [slash])
  | @within opens rest body after found positive closed next ih =>
      obtain ⟨rfl, -⟩ := bracket?_eq_some.mp closed
      refine List.forall_mem_cons.mpr ⟨?_, ih fun slash => plain (by simp [slash])⟩
      rw [← Bool.not_eq_true, listsSlash_within]
      exact fun slash => plain (by simp [slash])

/-- A pattern without slashes can be put in front of another one. -/
theorem Reads.join {opens : Bool} {front back : List Char} {found others : List Token}
    (reads : Reads opens front found) (plain : '/' ∉ front) (later : Reads true back others) :
    ∃ whole, Reads opens (front ++ '/' :: back) whole ∧ whole ⊆ found ++ .char '/' :: others := by
  have further {token : Token} {whole rest : List Token} (among : whole ⊆ rest) :
      token :: whole ⊆ token :: rest := List.cons_subset_cons token among
  induction reads with
  | done => exact ⟨_, .char (by decide) later, List.Subset.refl _⟩
  | anyChar next ih =>
      obtain ⟨whole, read, among⟩ := ih fun slash => plain (List.mem_cons_of_mem _ slash)
      exact ⟨_, .anyChar read, further among⟩
  | allDirectories =>
      exact ⟨_, .directories later, further (List.subset_cons_self _ _)⟩
  | directories next ih => simp at plain
  | sequence single next ih =>
      obtain ⟨whole, read, among⟩ := ih fun slash => plain (List.mem_cons_of_mem _ slash)
      exact ⟨_, .sequence (head?_append_slash (by decide) single) read, further among⟩
  | @outside opens rest body after found closed next ih =>
      have plainAfter : '/' ∉ after := by
        rw [(bracket?_eq_some.mp closed).1] at plain
        exact fun slash => plain (by simp [slash])
      obtain ⟨whole, read, among⟩ := ih plainAfter
      exact ⟨_, .outside (bracket?_append closed _) read, further among⟩
  | @within opens rest body after found positive closed next ih =>
      have plainAfter : '/' ∉ after := by
        rw [(bracket?_eq_some.mp closed).1] at plain
        exact fun slash => plain (by simp [slash])
      obtain ⟨whole, read, among⟩ := ih plainAfter
      exact ⟨_, .within (head?_append_slash (by decide) positive) (bracket?_append closed _) read,
        further among⟩
  | char clear next ih =>
      obtain ⟨whole, read, among⟩ := ih fun slash => plain (List.mem_cons_of_mem _ slash)
      exact ⟨_, .char clear read, further among⟩

/-- A text that begins without slashes has its first slash behind that. -/
theorem split_behind {lead rest front back : List Char} (plain : '/' ∉ lead)
    (split : lead ++ rest = front ++ '/' :: back) :
    ∃ later, front = lead ++ later ∧ rest = later ++ '/' :: back := by
  induction lead generalizing front with
  | nil => exact ⟨front, rfl, split⟩
  | cons char lead ih =>
      cases front with
      | nil =>
          obtain ⟨rfl, -⟩ := List.cons.inj split
          exact absurd List.mem_cons_self plain
      | cons first front =>
          obtain ⟨rfl, same⟩ := List.cons.inj split
          obtain ⟨later, rfl, ends⟩ := ih (fun slash => plain (List.mem_cons_of_mem _ slash)) same
          exact ⟨later, rfl, ends⟩

/-- A pattern whose brackets list no slash is cut at its first slash. -/
theorem Reads.cut {opens : Bool} {text front back : List Char} {found : List Token}
    (reads : Reads opens text found) (free : ∀ token ∈ found, token.listsSlash = false)
    (plain : '/' ∉ front) (split : text = front ++ '/' :: back) :
    (∃ first, Reads opens front first) ∧ ∃ others, Reads true back others ∧ others ⊆ found := by
  have further {token : Token} {rest others : List Token} (among : others ⊆ rest) :
      others ⊆ token :: rest := fun other member => List.mem_cons_of_mem token (among member)
  induction reads generalizing front with
  | done => simp at split
  | anyChar next ih =>
      obtain ⟨later, rfl, rfl⟩ := @split_behind ['?'] _ _ _ (by decide) split
      obtain ⟨⟨first, begins⟩, others, ends, among⟩ :=
        ih (List.forall_mem_cons.mp free).2 (fun slash => plain (List.mem_append_right _ slash)) rfl
      exact ⟨⟨_, .anyChar begins⟩, others, ends, further among⟩
  | allDirectories =>
      obtain ⟨later, -, impossible⟩ := @split_behind ['*', '*'] [] _ _ (by decide) split
      simp at impossible
  | @directories rest found next ih =>
      obtain ⟨later, rfl, ends⟩ := @split_behind ['*', '*'] ('/' :: rest) _ _ (by decide) split
      cases later with
      | nil =>
          obtain ⟨-, rfl⟩ := List.cons.inj ends
          exact ⟨⟨_, .allDirectories⟩, found, next, further (List.Subset.refl _)⟩
      | cons char later =>
          obtain ⟨rfl, -⟩ := List.cons.inj ends
          simp at plain
  | @sequence opens rest found single next ih =>
      obtain ⟨later, rfl, rfl⟩ := @split_behind ['*'] _ _ _ (by decide) split
      obtain ⟨⟨first, begins⟩, others, ends, among⟩ :=
        ih (List.forall_mem_cons.mp free).2 (fun slash => plain (List.mem_append_right _ slash)) rfl
      refine ⟨⟨_, .sequence ?_ begins⟩, others, ends, further among⟩
      intro star
      obtain ⟨more, rfl⟩ := List.head?_eq_some_iff.mp star
      exact single rfl
  | @outside opens rest body after found closed next ih =>
      obtain ⟨rfl, some, inner⟩ := bracket?_eq_some.mp closed
      have clean : '/' ∉ body := by
        rw [← listsSlash_outside, free _ List.mem_cons_self]
        decide
      have lead : '/' ∉ '[' :: '!' :: body ++ [']'] := by simpa using clean
      obtain ⟨later, rfl, rfl⟩ := @split_behind _ after front back lead (by simpa using split)
      obtain ⟨⟨first, begins⟩, others, ends, among⟩ :=
        ih (List.forall_mem_cons.mp free).2 (fun slash => plain (List.mem_append_right _ slash)) rfl
      refine ⟨⟨.outside (ranges body) :: first, ?_⟩, others, ends, further among⟩
      simpa using Reads.outside (bracket?_eq_some.mpr ⟨rfl, some, inner⟩) begins
  | @within opens rest body after found positive closed next ih =>
      obtain ⟨rfl, some, inner⟩ := bracket?_eq_some.mp closed
      have clean : '/' ∉ body := by
        rw [← listsSlash_within, free _ List.mem_cons_self]
        decide
      have lead : '/' ∉ '[' :: body ++ [']'] := by simpa using clean
      obtain ⟨later, rfl, rfl⟩ := @split_behind _ after front back lead (by simpa using split)
      obtain ⟨⟨first, begins⟩, others, ends, among⟩ :=
        ih (List.forall_mem_cons.mp free).2 (fun slash => plain (List.mem_append_right _ slash)) rfl
      refine ⟨⟨.within (ranges body) :: first, ?_⟩, others, ends, further among⟩
      have positive : (body ++ ']' :: later).head? ≠ Option.some '!' := by
        rw [List.head?_append_of_ne_nil _ some] at positive ⊢
        exact positive
      simpa using Reads.within positive (bracket?_eq_some.mpr ⟨rfl, some, inner⟩) begins
  | @char opens char rest found clear next ih =>
      by_cases slash : char = '/'
      · subst slash
        cases front with
        | nil =>
            obtain ⟨-, rfl⟩ := List.cons.inj split
            exact ⟨⟨_, .done⟩, found, next, further (List.Subset.refl _)⟩
        | cons head front =>
            obtain ⟨rfl, -⟩ := List.cons.inj split
            simp at plain
      · obtain ⟨later, rfl, rfl⟩ := @split_behind [char] _ _ _ (by simpa using Ne.symm slash) split
        obtain ⟨⟨first, begins⟩, others, ends, among⟩ :=
          ih (List.forall_mem_cons.mp free).2
            (fun slash => plain (List.mem_append_right _ slash)) rfl
        exact ⟨⟨_, .char clear begins⟩, others, ends, further among⟩

/-- The pieces of a pattern can all be read if the pattern can be and none of its brackets
lists a slash. -/
theorem forall_pieces_compile {text : List Char} :
    (∀ piece ∈ text.splitOn '/', Compiles piece) ↔
      ∃ found, tokens text = .ok found ∧ ∀ token ∈ found, token.listsSlash = false := by
  simp only [Compiles, tokens_eq_ok]
  -- The text is cut at its first slash, and what stands behind that is shorter.
  induction size : text.length using Nat.strongRecOn generalizing text with
  | ind size ih =>
      subst size
      by_cases slash : '/' ∈ text
      · obtain ⟨front, back, rfl, plain⟩ := List.eq_append_cons_of_mem slash
        have shorter : back.length < (front ++ '/' :: back).length := by
          rw [List.length_append, List.length_cons]
          omega
        rw [List.splitOn_append_cons_self, List.splitOn_eq_singleton plain, List.forall_mem_append,
          List.forall_mem_singleton, ih _ shorter rfl]
        constructor
        · rintro ⟨⟨first, begins⟩, others, ends, clean⟩
          obtain ⟨whole, reads, among⟩ := begins.join plain ends
          refine ⟨whole, reads, fun token member => ?_⟩
          have free : ∀ token ∈ first ++ .char '/' :: others, token.listsSlash = false :=
            List.forall_mem_append.mpr ⟨begins.free plain, List.forall_mem_cons.mpr ⟨rfl, clean⟩⟩
          exact free token (among member)
        · rintro ⟨whole, reads, clean⟩
          obtain ⟨begins, others, ends, among⟩ := reads.cut clean plain rfl
          exact ⟨begins, others, ends, fun token member => clean token (among member)⟩
      · rw [List.splitOn_eq_singleton slash, List.forall_mem_singleton]
        constructor
        · rintro ⟨found, reads⟩
          exact ⟨found, reads, reads.free slash⟩
        · rintro ⟨found, reads, -⟩
          exact ⟨found, reads⟩

theorem forall_mem_pieces {path : Path} {holds : List Char → Prop} :
    (∀ piece ∈ path.pieces, holds piece.toList) ↔
      ∀ piece ∈ path.text.toList.splitOn '/', holds piece := by
  simp [Path.pieces]

/-- The pattern can be read, and one of its brackets lists a slash. -/
def SplitsBracket (text : List Char) : Prop :=
  ∃ found, tokens text = .ok found ∧ ∃ token ∈ found, token.listsSlash = true

/-- What can be read as a whole, but not piece by piece. -/
theorem splitsBracket_iff {path : Path} (compiles : Compiles path.text.toList) :
    (∃ piece ∈ path.pieces, ¬Compiles piece.toList) ↔ SplitsBracket path.text.toList := by
  obtain ⟨found, read⟩ := compiles
  have whole : (∀ piece ∈ path.pieces, Compiles piece.toList) ↔
      ∀ token ∈ found, token.listsSlash = false := by
    rw [forall_mem_pieces, forall_pieces_compile, read]
    simp
  have splits : SplitsBracket path.text.toList ↔ ∃ token ∈ found, token.listsSlash = true := by
    rw [SplitsBracket, read]
    simp
  rw [splits]
  simpa using not_congr whole

theorem mapM_tokens_ok {texts : List (List Char)} :
    (∃ found, texts.mapM tokens = .ok found) ↔ ∀ text ∈ texts, Compiles text := by
  induction texts with
  | nil => exact ⟨fun _ => by simp, fun _ => ⟨[], rfl⟩⟩
  | cons text texts ih =>
      rw [List.mapM_cons, List.forall_mem_cons, ← ih, Compiles]
      cases tokens text with
      | error fault => simp [bind, Except.bind]
      | ok first =>
          cases texts.mapM tokens with
          | error fault => simp [bind, Except.bind]
          | ok others => simp [bind, Except.bind, pure, Except.pure]

theorem forall_stem_compile {path : Path} :
    (∀ piece ∈ path.stem, Compiles piece.toList) ↔
      ∀ piece ∈ path.pieces, Compiles piece.toList := by
  have empty : Compiles "".toList := ⟨[], rfl⟩
  rcases path.pieces_eq_stem with same | more
  · rw [same]
  · rw [more, List.forall_mem_append, List.forall_mem_singleton]
    exact (and_iff_left empty).symm

/-- A pattern is followed if all its pieces can be read: then it can be read as a whole too. -/
theorem stages_ok {path : Path} :
    (∃ found, stages path.text.toList = .ok found) ↔
      ∀ piece ∈ path.pieces, Compiles piece.toList := by
  have parts : (∃ found, (stageTexts path.text.toList).mapM tokens = .ok found) ↔
      ∀ piece ∈ path.pieces, Compiles piece.toList := by
    rw [mapM_tokens_ok, stageTexts_eq, List.forall_mem_map, forall_stem_compile]
  constructor
  · rintro ⟨found, read⟩
    rw [← parts]
    cases pieces : (stageTexts path.text.toList).mapM tokens with
    | ok others => exact ⟨others, rfl⟩
    | error fault =>
        cases whole : tokens path.text.toList with
        | ok checked => simp [stages, whole, pieces, bind, Except.bind] at read
        | error fault => simp [stages, whole, bind, Except.bind] at read
  · intro compile
    obtain ⟨others, pieces⟩ := parts.mpr compile
    obtain ⟨checked, whole, -⟩ := forall_pieces_compile.mp (forall_mem_pieces.mp compile)
    refine ⟨collapse (others.map Stage.ofTokens), ?_⟩
    simp only [stages, whole, pieces, bind, Except.bind]

/-- Following a pattern fails exactly for a piece that cannot be read. -/
theorem directories_error {tree : FileTree} {pattern : Path} :
    (∃ fault, directories tree pattern = .error fault) ↔
      ∃ piece ∈ pattern.pieces, ¬Compiles piece.toList := by
  have flawed : (∃ piece ∈ pattern.pieces, ¬Compiles piece.toList) ↔
      ¬∃ found, stages pattern.text.toList = .ok found := by
    rw [stages_ok]
    simp
  rw [flawed, directories]
  cases stages pattern.text.toList with
  | error fault => simp [bind, Except.bind]
  | ok found => cases found <;> simp [bind, Except.bind]

/-- Under a base, both the base and the pattern must be legible, unless the pattern starts
from the root. -/
theorem directories_join_error {tree : FileTree} {base entry : Path} :
    (∃ fault, directories tree (base.join entry) = .error fault) ↔
      (∃ piece ∈ entry.pieces, ¬Compiles piece.toList) ∨
        entry.isAbsolute = false ∧ ∃ piece ∈ base.pieces, ¬Compiles piece.toList := by
  rw [directories_error]
  cases absolute : entry.isAbsolute with
  | true => simp [Path.join, absolute]
  | false =>
      have stem : (∃ piece ∈ base.stem, ¬Compiles piece.toList) ↔
          ∃ piece ∈ base.pieces, ¬Compiles piece.toList := by
        simpa using not_congr (@forall_stem_compile base)
      rw [Path.pieces_join base absolute, ← stem, or_comm]
      simp only [List.mem_append, or_and_right, exists_or, true_and]

end SourceComments.Glob
