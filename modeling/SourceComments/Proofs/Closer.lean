import SourceComments.Segment
import Mathlib.Data.List.Infix

/-! Where a block comment closes.

The body of a block comment ends at the nearest closer, so it holds no closer
itself: the closer's first character is not its last, and an occurrence cannot
begin in the body and end in the closer that follows. -/

namespace SourceComments

/-- The characters that close a block comment. -/
def closer : List Char := ['*', '/']

/-- The first closer after the opener is the one right after `body`. -/
def NearestCloser (body : List Char) : Prop :=
  ∀ before after, body ++ closer = before ++ closer ++ after → before = body

@[simp] theorem closer_ne_nil : closer ≠ [] := by
  simp [closer]

theorem closer_infix_cons (char : Char) (text : List Char) :
    closer <:+: char :: text ↔ (char = '*' ∧ text.head? = some '/') ∨ closer <:+: text := by
  rw [List.infix_cons_iff]
  apply or_congr_left
  cases text with
  | nil => simp [closer]
  | cons next text => simp [closer, List.cons_prefix_cons, eq_comm]

theorem closer_infix_snoc (text : List Char) (char : Char) :
    closer <:+: text ++ [char] ↔ closer <:+: text ∨ (char = '/' ∧ text.getLast? = some '*') := by
  induction text with
  | nil => simp [closer_infix_cons]
  | cons first text ih =>
      rw [List.cons_append, closer_infix_cons, ih, closer_infix_cons]
      cases text with
      | nil =>
          simp [or_comm, and_comm]
      | cons second text => simp [or_assoc]

theorem not_closer_infix_of_append {before after : List Char}
    (absent : ¬closer <:+: before ++ after) : ¬closer <:+: before :=
  fun found => absent (found.trans (List.prefix_append before after).isInfix)

/-- A closer that follows `body` is found nowhere before its end. -/
theorem closer_infix_append_closer {body : List Char} (absent : ¬closer <:+: body) :
    NearestCloser body := by
  induction body with
  | nil =>
      intro before after split
      rcases before with _ | ⟨first, _ | ⟨second, before⟩⟩
      · rfl
      · simp [closer] at split
      · simp [closer] at split
  | cons char body ih =>
      rw [closer_infix_cons, not_or] at absent
      intro before after split
      cases before with
      | nil =>
          exfalso
          apply absent.1
          cases body with
          | nil => simp_all [closer]
          | cons next body => simp_all [closer]
      | cons first before =>
          rw [List.cons_append, List.cons_append, List.cons_append, List.cons.injEq] at split
          rw [split.1, ih absent.2 before after split.2]

theorem nearestCloser_iff (body : List Char) : NearestCloser body ↔ ¬closer <:+: body := by
  constructor
  · rintro nearest ⟨before, after, rfl⟩
    have shorter := nearest before (after ++ closer) (by simp)
    have sizes := congrArg List.length shorter
    simp [closer] at sizes
  · exact closer_infix_append_closer

namespace Segment

theorem blockBody?_append {body : List Char} (absent : ¬closer <:+: body) (rest : List Char) :
    blockBody? (body ++ closer ++ rest) = some body := by
  induction body with
  | nil => simp [closer, blockBody?]
  | cons char body ih =>
      rw [closer_infix_cons, not_or] at absent
      cases body with
      | nil =>
          have here := ih absent.2
          simp only [closer, List.nil_append, List.cons_append] at here ⊢
          rw [blockBody?, here]
          simp
      | cons next body =>
          have here := ih absent.2
          simp only [List.cons_append] at here ⊢
          rw [blockBody?, here, if_neg (by simpa using absent.1)]
          rfl

theorem blockBody?_eq_none {text : List Char} : blockBody? text = none ↔ ¬closer <:+: text := by
  fun_induction blockBody? text with
  | case1 => simp
  | case2 char => simp [closer_infix_cons]
  | case3 char next rest found => simp [closer_infix_cons, found]
  | case4 char next rest found ih =>
      rw [Option.map_eq_none_iff, ih, closer_infix_cons char]
      simp [found]

theorem blockBody?_split {text body : List Char} (found : blockBody? text = some body) :
    ¬closer <:+: body ∧ ∃ rest, text = body ++ closer ++ rest := by
  fun_induction blockBody? text generalizing body with
  | case1 => cases found
  | case2 => cases found
  | case3 char next rest here =>
      obtain rfl := Option.some.inj found
      obtain ⟨rfl, rfl⟩ := here
      exact ⟨by simp, rest, rfl⟩
  | case4 char next rest here ih =>
      obtain ⟨inner, innerFound, rfl⟩ := Option.map_eq_some_iff.mp found
      obtain ⟨absent, after, split⟩ := ih innerFound
      refine ⟨?_, after, by rw [split]; rfl⟩
      rw [closer_infix_cons, not_or]
      refine ⟨?_, absent⟩
      rintro ⟨rfl, starts⟩
      cases inner with
      | nil => simp at starts
      | cons first inner => simp_all

end Segment

end SourceComments
