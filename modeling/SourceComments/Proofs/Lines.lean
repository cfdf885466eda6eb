import SourceComments.Text.LineIndex
import SourceComments.Text.Utf8
import Mathlib.Data.List.Basic

/-! Line numbers by counting.

Bisection over strictly ascending line ends counts the ends before an offset, so
the line of the place after a text's first characters is one more than the
newlines among them. -/

namespace SourceComments

@[simp] theorem byteLength_append (left right : List Char) :
    byteLength (left ++ right) = byteLength left + byteLength right := by
  induction left with
  | nil => simp [byteLength]
  | cons char left ih => simp [byteLength, ih, Nat.add_assoc]

namespace LineIndex

theorem endsFrom_lower (offset : Nat) (text : List Char) :
    ∀ stop ∈ endsFrom offset text, offset ≤ stop := by
  induction text generalizing offset with
  | nil => simp [endsFrom]
  | cons char text ih =>
      intro stop member
      rw [endsFrom] at member
      split at member
      · rcases List.mem_cons.mp member with rfl | later
        · exact Nat.le_refl _
        · exact Nat.le_of_succ_le (ih (offset + 1) stop later)
      · exact Nat.le_trans (Nat.le_add_right _ _) (ih (offset + char.utf8Size) stop member)

theorem endsFrom_ascending (offset : Nat) (text : List Char) :
    (endsFrom offset text).Pairwise (· < ·) := by
  induction text generalizing offset with
  | nil => simp [endsFrom]
  | cons char text ih =>
      rw [endsFrom]
      split
      · exact List.pairwise_cons.mpr ⟨endsFrom_lower (offset + 1) text, ih (offset + 1)⟩
      · exact ih (offset + char.utf8Size)

theorem endsFrom_length (offset : Nat) (text : List Char) :
    (endsFrom offset text).length = text.count '\n' + 1 := by
  induction text generalizing offset with
  | nil => rfl
  | cons char text ih =>
      rw [endsFrom]
      split
      · rename_i newline
        simp [newline, ih]
      · rename_i other
        simp [other, ih]

theorem countP_eq_zero_of_lower {ends : List Nat} {offset : Nat}
    (lower : ∀ stop ∈ ends, offset ≤ stop) : ends.countP (· < offset) = 0 := by
  rw [List.countP_eq_zero]
  intro stop member
  simpa using lower stop member

/-- Among ascending ends, those before the offset come first. -/
theorem getD_lt_iff {ends : List Nat} (ascending : ends.Pairwise (· < ·)) (offset position : Nat) :
    ends.getD position offset < offset ↔ position < ends.countP (· < offset) := by
  induction ends generalizing position with
  | nil => simp
  | cons first ends ih =>
      obtain ⟨above, later⟩ := List.pairwise_cons.mp ascending
      by_cases before : first < offset
      · rw [List.countP_cons_of_pos (by simpa using before)]
        cases position with
        | zero => simp [before]
        | succ position => simpa using ih later position
      · have none : ends.countP (· < offset) = 0 := by
          apply countP_eq_zero_of_lower
          intro stop member
          exact Nat.le_trans (Nat.le_of_not_lt before) (Nat.le_of_lt (above stop member))
        rw [List.countP_cons_of_neg (by simpa using before), none]
        cases position with
        | zero => simpa using before
        | succ position =>
            have past := ih later position
            rw [none] at past
            simpa using past

/-- The bounds close in on the number of ends before the offset. -/
theorem bisect_eq {ends : Array Nat} (ascending : ends.toList.Pairwise (· < ·)) {offset : Nat}
    (steps low high : Nat) (enough : high - low ≤ steps)
    (lower : low ≤ ends.toList.countP (· < offset))
    (upper : ends.toList.countP (· < offset) ≤ high) :
    bisect ends offset steps low high = ends.toList.countP (· < offset) := by
  induction steps generalizing low high with
  | zero =>
      rw [bisect]
      omega
  | succ steps ih =>
      rw [bisect]
      split
      · rename_i apart
        have test := getD_lt_iff ascending offset (low + (high - low) / 2)
        simp only [List.getD_eq_getElem?_getD, Array.getElem?_toList,
          ← Array.getD_eq_getD_getElem?] at test
        dsimp only
        split
        · rename_i before
          exact ih _ _ (by omega) (test.mp before) upper
        · rename_i after
          exact ih _ _ (by omega) lower (Nat.le_of_not_lt fun below => after (test.mpr below))
      · omega

theorem lineOf_eq_countP (text : List Char) (offset : Nat) :
    (ofChars text).lineOf offset = (endsFrom 0 text).countP (· < offset) + 1 := by
  have ascending : (ofChars text).ends.toList.Pairwise (· < ·) := endsFrom_ascending 0 text
  rw [lineOf, endsBefore, bisect_eq ascending _ _ _ (Nat.sub_le _ _) (Nat.zero_le _)]
  · rfl
  · exact List.countP_le_length

theorem countP_endsFrom (offset : Nat) (before after : List Char) :
    (endsFrom offset (before ++ after)).countP (· < offset + byteLength before) =
      before.count '\n' := by
  induction before generalizing offset with
  | nil => exact countP_eq_zero_of_lower (endsFrom_lower offset after)
  | cons char before ih =>
      rw [List.cons_append, endsFrom]
      split
      · rename_i newline
        subst newline
        have size : '\n'.utf8Size = 1 := rfl
        have later := ih (offset + 1)
        simp only [byteLength, size]
        have passed : decide (offset < offset + (1 + byteLength before)) = true :=
          decide_eq_true (by omega)
        rw [List.countP_cons_of_pos (by exact passed), ← Nat.add_assoc, later]
        simp
      · rename_i other
        have later := ih (offset + char.utf8Size)
        rw [byteLength, ← Nat.add_assoc, later]
        simp [other]

/-- The place after a text's first characters lies on the line that their newlines count. -/
theorem lineOf_byteLength (before after : List Char) :
    (ofChars (before ++ after)).lineOf (byteLength before) = 1 + before.count '\n' := by
  have counted := countP_endsFrom 0 before after
  rw [Nat.zero_add] at counted
  rw [lineOf_eq_countP, counted, Nat.add_comm]

theorem lineCount_ofChars (text : List Char) :
    (ofChars text).lineCount = 1 + text.count '\n' := by
  rw [lineCount, ofChars, List.size_toArray, endsFrom_length, Nat.add_comm]

end LineIndex

end SourceComments
