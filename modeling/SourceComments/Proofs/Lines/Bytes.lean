import SourceComments.Proofs.ByteOrder
import SourceComments.Proofs.Lines
import Mathlib.Order.Monotone.Defs

/-! Line numbers at every byte offset.

In UTF-8 the byte of a newline stands for a newline and is part of nothing else. So counting
newline bytes gives the line of any offset, of those inside a character too, and an offset past
the end of the text counts the end as one more line end. -/

namespace SourceComments

/-- How a newline is encoded. -/
def newlineByte : UInt8 := 10

/-- How many newline bytes of the text lie before the offset. -/
def newlinesBefore (text : String) (offset : Nat) : Nat :=
  ((utf8Bytes text).take offset).count newlineByte

theorem utf8EncodeChar_newline : String.utf8EncodeChar '\n' = [newlineByte] := rfl

theorem newlineByte_eq_ofNat {value : Nat} (bound : value < 256) :
    newlineByte = UInt8.ofNat value ↔ 10 = value := by
  rw [← UInt8.toNat_inj, UInt8.toNat_ofNat_of_lt' bound]
  rfl

/-- All bytes of a longer encoding have their highest bit set. -/
theorem newlineByte_not_mem {char : Char} (other : char ≠ '\n') :
    newlineByte ∉ String.utf8EncodeChar char := by
  have code : char.val.toNat ≠ 10 := by
    intro same
    exact other (Char.ext (UInt32.toNat_inj.mp same))
  simp only [String.utf8EncodeChar]
  generalize char.val.toNat = value at code
  split_ifs <;>
    simp (disch := omega) only [List.mem_cons, List.not_mem_nil, or_false, newlineByte_eq_ofNat] <;>
    omega

theorem length_utf8Bytes (text : String) : (utf8Bytes text).length = text.utf8ByteSize := rfl

theorem utf8ByteSize_eq (text : String) : text.utf8ByteSize = byteLength text.toList := by
  rw [← length_utf8Bytes, utf8Bytes_eq]
  induction text.toList with
  | nil => rfl
  | cons char chars ih =>
      rw [List.flatMap_cons, List.length_append, ih, String.length_utf8EncodeChar, byteLength]

/-- More of the text has at least as many newlines. -/
theorem newlinesBefore_mono (text : String) : Monotone (newlinesBefore text) := by
  intro offset later before
  exact (List.take_sublist_take_left before).count_le newlineByte

namespace LineIndex

/-- Up to an offset, the line ends are the newline bytes in front of it and, past the end of the
text, that end. -/
theorem countP_endsFrom_bytes (start offset : Nat) (text : List Char) :
    (endsFrom start text).countP (· < offset) =
      ((text.flatMap String.utf8EncodeChar).take (offset - start)).count newlineByte +
        if start + byteLength text < offset then 1 else 0 := by
  induction text generalizing start with
  | nil =>
      rw [endsFrom, List.countP_singleton, byteLength]
      simp
  | cons char text ih =>
      rw [endsFrom, List.flatMap_cons, byteLength, ← Nat.add_assoc]
      split
      · rename_i newline
        subst newline
        have size : '\n'.utf8Size = 1 := rfl
        rw [List.countP_cons, ih, utf8EncodeChar_newline, size, List.singleton_append]
        by_cases before : start < offset
        · have reached : offset - start = offset - (start + 1) + 1 := by omega
          rw [reached, List.take_succ_cons, List.count_cons_self, decide_eq_true before, if_pos rfl]
          omega
        · have here : offset - start = 0 := by omega
          have beyond : offset - (start + 1) = 0 := by omega
          rw [here, beyond, decide_eq_false before]
          rfl
      · rename_i other
        have skipped : ((String.utf8EncodeChar char).take (offset - start)).count newlineByte = 0 :=
          List.count_eq_zero.mpr fun member => newlineByte_not_mem other (List.mem_of_mem_take member)
        rw [ih, List.take_append, List.count_append, skipped, Nat.zero_add,
          String.length_utf8EncodeChar, Nat.sub_sub]

section

variable (text : String)

/-- The line of an offset is counted in bytes, whether or not a character begins there. -/
theorem lineOf_eq (offset : Nat) :
    (ofString text).lineOf offset =
      1 + newlinesBefore text offset + if text.utf8ByteSize < offset then 1 else 0 := by
  rw [ofString, lineOf_eq_countP, countP_endsFrom_bytes, ← utf8Bytes_eq, ← utf8ByteSize_eq,
    Nat.zero_add, Nat.sub_zero, newlinesBefore]
  omega

theorem lineOf_mono : Monotone (ofString text).lineOf := by
  intro offset later before
  have newlines := newlinesBefore_mono text before
  rw [lineOf_eq, lineOf_eq]
  split_ifs <;> omega

/-- The last line is the one that holds the end of the text. -/
theorem lineOf_end : (ofString text).lineOf text.utf8ByteSize = (ofString text).lineCount := by
  have last := lineOf_byteLength text.toList []
  rw [List.append_nil, ← lineCount_ofChars, ← utf8ByteSize_eq] at last
  exact last

/-- Looking a line up is counting the newline bytes before the offset, with one line more for
offsets past the end. So later offsets lie on no earlier lines, and those of the text on the lines
that are counted. -/
theorem lineOf_counts_bytes :
    (ofString text).ends.toList.Pairwise (· < ·) ∧
      (ofString text).lineCount = 1 + text.toList.count '\n' ∧
      (∀ offset, (ofString text).lineOf offset =
        1 + newlinesBefore text offset + if text.utf8ByteSize < offset then 1 else 0) ∧
      Monotone (ofString text).lineOf ∧
      ∀ offset ≤ text.utf8ByteSize,
        1 ≤ (ofString text).lineOf offset ∧
          (ofString text).lineOf offset ≤ (ofString text).lineCount := by
  refine ⟨endsFrom_ascending 0 text.toList, lineCount_ofChars text.toList, lineOf_eq text,
    lineOf_mono text, ?_⟩
  intro offset within
  constructor
  · rw [lineOf_eq]
    omega
  · rw [← lineOf_end]
    exact lineOf_mono text within

/-- The second byte of a wide character lies on its line, and so do the newline behind it and the
end behind that newline on the next. -/
theorem lineOf_counts_bytes_of_wide_character :
    2 ≤ "é\n".utf8ByteSize ∧ (ofString "é\n").lineOf 1 = 1 ∧ (ofString "é\n").lineOf 2 = 1 ∧
      (ofString "é\n").lineOf 3 = 2 ∧ (ofString "é\n").lineOf 4 = 3 ∧
      (ofString "é\n").lineOf 2 ≤ (ofString "é\n").lineCount := by
  obtain ⟨-, -, counted, -, bounded⟩ := lineOf_counts_bytes "é\n"
  have within : 2 ≤ "é\n".utf8ByteSize := by decide
  refine ⟨within, ?_, ?_, ?_, ?_, (bounded 2 within).2⟩
  all_goals
    rw [counted]
    decide

end

end LineIndex

end SourceComments

