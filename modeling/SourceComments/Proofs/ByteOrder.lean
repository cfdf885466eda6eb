import Mathlib.Data.String.Basic

/-! Text in the order of its bytes.

A character with a smaller code point has an encoding that is smaller at the first byte
where the two differ, and they do differ before either ends. So texts are ordered as their
UTF-8 bytes are. -/

namespace SourceComments

/-- The bytes of a text in UTF-8. -/
def utf8Bytes (text : String) : List UInt8 := text.toUTF8.data.toList

theorem utf8Bytes_eq (text : String) :
    utf8Bytes text = text.toList.flatMap String.utf8EncodeChar := by
  have bytes : text.toByteArray = text.toList.utf8Encode := by
    rw [← String.toByteArray_ofList, String.ofList_toList]
  rw [utf8Bytes, String.toUTF8_eq_toByteArray, bytes, List.utf8Encode,
    List.toList_data_toByteArray]

theorem ofNat_cons_lt {low high : Nat} (lowByte : low < 256) (highByte : high < 256)
    {rest others : List UInt8} :
    UInt8.ofNat low :: rest < UInt8.ofNat high :: others ↔
      low < high ∨ low = high ∧ rest < others := by
  rw [List.cons_lt_cons_iff, UInt8.ofNat_lt_iff_lt lowByte highByte, ← UInt8.toNat_inj,
    UInt8.toNat_ofNat_of_lt' lowByte, UInt8.toNat_ofNat_of_lt' highByte]

/-- The digits that the bytes of a code point carry. -/
theorem code_digits {code : Nat} (bound : code < 0x110000) :
    code = code / 262144 % 8 * 262144 + code / 4096 % 64 * 4096 + code / 64 % 64 * 64 +
      code % 64 := by
  omega

theorem code_lt (char : Char) : char.val.toNat < 0x110000 := by
  rcases char.valid with low | high
  · exact Nat.lt_trans low (by decide)
  · exact high.2

/-- Of two different characters the encodings differ before one of them ends. -/
theorem utf8EncodeChar_lt {first second : Char} (less : first < second) (rest others : List UInt8) :
    String.utf8EncodeChar first ++ rest < String.utf8EncodeChar second ++ others := by
  have codes : first.val.toNat < second.val.toNat := less
  have bound := code_lt second
  simp only [String.utf8EncodeChar]
  generalize first.val.toNat = low at codes
  generalize second.val.toNat = high at codes bound
  split_ifs <;>
    simp (disch := omega) only [List.cons_append, List.nil_append, ofNat_cons_lt]
  any_goals omega
  -- Only for encodings of four bytes must the digits be spelled out.
  have lowDigits := code_digits (Nat.lt_trans codes bound)
  have highDigits := code_digits bound
  omega

theorem flatMap_utf8EncodeChar_lt {left right : List Char} (less : left < right) :
    left.flatMap String.utf8EncodeChar < right.flatMap String.utf8EncodeChar := by
  induction List.lex_lt.mpr less with
  | @nil char chars =>
      have some := @String.utf8EncodeChar_ne_nil char
      obtain ⟨byte, bytes, encoded⟩ := List.exists_cons_of_ne_nil some
      rw [List.flatMap_nil, List.flatMap_cons, encoded]
      exact List.nil_lt_cons byte _
  | rel smaller => exact utf8EncodeChar_lt smaller _ _
  | cons later ih =>
      rw [List.flatMap_cons, List.flatMap_cons]
      exact List.append_left_lt (ih (List.lex_lt.mp later))

/-- Texts are ordered as their bytes are. -/
theorem utf8Bytes_lt_iff {left right : String} :
    utf8Bytes left < utf8Bytes right ↔ left < right := by
  have forward {first second : String} (less : first < second) :
      utf8Bytes first < utf8Bytes second := by
    rw [utf8Bytes_eq, utf8Bytes_eq]
    exact flatMap_utf8EncodeChar_lt (String.lt_iff_toList_lt.mp less)
  constructor
  · intro less
    rcases lt_trichotomy left right with smaller | rfl | larger
    · exact smaller
    · exact absurd less (List.lt_irrefl _)
    · exact absurd less (List.lt_asymm (forward larger))
  · exact forward

end SourceComments
