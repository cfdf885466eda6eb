import SourceComments.Json.Printer
import SourceComments.Json.Strings
import Mathlib.Data.List.Basic

/-! How JSON documents may be written.

Blanks may stand around every value, a character of a string may stand for itself or be
escaped, and a number has no needless zero in front. A printed document is one of the
spellings of the document, at every depth of indentation. -/

namespace SourceComments.Json

/-- Nothing but blanks. -/
def Blank (text : List Char) : Prop := ∀ char ∈ text, Read.isBlank char = true

/-- The text with blanks before and after it. -/
inductive Around (text : List Char) : List Char → Prop where
  | blanks {before after : List Char} (blankBefore : Blank before) (blankAfter : Blank after) :
      Around text (before ++ (text ++ after))

/-- Four hexadecimal digits, the first one of the highest weight. -/
inductive CodeUnit : List Char → Nat → Prop where
  | digits {first second third fourth : Char} {a b c d : Nat}
      (highest : Read.hexValue? first = some a) (high : Read.hexValue? second = some b)
      (low : Read.hexValue? third = some c) (lowest : Read.hexValue? fourth = some d) :
      CodeUnit [first, second, third, fourth] (((a * 16 + b) * 16 + c) * 16 + d)

/-- The ways to write a character of a string: as itself, by a letter that stands for it, by
its code unit, or by a pair of surrogates. -/
inductive SpellsChar : Char → List Char → Prop where
  | itself {char : Char} (unquoted : char ≠ '"') (plain : char ≠ '\\')
      (visible : ¬char.toNat < 32) : SpellsChar char [char]
  | letter {char letter : Char} (meaning : Read.shortEscape? letter = some char) :
      SpellsChar char ['\\', letter]
  | unit {digits : List Char} {unit : Nat} (code : CodeUnit digits unit)
      (basic : unit < 0xD800 ∨ 0xDFFF < unit) :
      SpellsChar (Char.ofNat unit) ('\\' :: 'u' :: digits)
  | pair {digits others : List Char} {lead trail : Nat} (first : CodeUnit digits lead)
      (second : CodeUnit others trail) (isLead : 0xD800 ≤ lead ∧ lead < 0xDC00)
      (isTrail : 0xDC00 ≤ trail ∧ trail ≤ 0xDFFF) :
      SpellsChar (Char.ofNat (0x10000 + (lead - 0xD800) * 0x400 + (trail - 0xDC00)))
        ('\\' :: 'u' :: (digits ++ '\\' :: 'u' :: others))

inductive SpellsChars : List Char → List Char → Prop where
  | nil : SpellsChars [] []
  | cons {char : Char} {chars written others : List Char} (first : SpellsChar char written)
      (later : SpellsChars chars others) : SpellsChars (char :: chars) (written ++ others)

inductive SpellsString : String → List Char → Prop where
  | quotes {text : String} {body : List Char} (chars : SpellsChars text.toList body) :
      SpellsString text ('"' :: (body ++ ['"']))

/-- A natural number in decimal digits. -/
structure SpellsNumber (value : Nat) (text : List Char) : Prop where
  nonempty : text ≠ []
  digits : ∀ char ∈ text, char.isDigit = true
  noNeedlessZero : text.head? = some '0' → text = ['0']
  total : Nat.ofDigitChars 10 text 0 = value

mutual

/-- The text is a spelling of the document, without blanks around it. -/
inductive Spells : Json → List Char → Prop where
  | null : Spells .null ['n', 'u', 'l', 'l']
  | bool (value : Bool) : Spells (.bool value) (word value)
  | number {value : Nat} {text : List Char} (spelled : SpellsNumber value text) :
      Spells (.number value) text
  | string {value : String} {text : List Char} (spelled : SpellsString value text) :
      Spells (.string value) text
  | emptyArray {blanks : List Char} (blank : Blank blanks) :
      Spells (.array []) ('[' :: (blanks ++ [']']))
  | array {items : List Json} {text : List Char} (listed : SpellsItems items text) :
      Spells (.array items) ('[' :: (text ++ [']']))
  | emptyObject {blanks : List Char} (blank : Blank blanks) :
      Spells (.object []) ('\x7b' :: (blanks ++ ['\x7d']))
  | object {members : List (String × Json)} {text : List Char}
      (listed : SpellsMembers members text) :
      Spells (.object members) ('\x7b' :: (text ++ ['\x7d']))

/-- One or more items with commas between them. -/
inductive SpellsItems : List Json → List Char → Prop where
  | last {item : Json} {text padded : List Char} (spelled : Spells item text)
      (around : Around text padded) : SpellsItems [item] padded
  | next {item : Json} {items : List Json} {text padded others : List Char}
      (spelled : Spells item text) (around : Around text padded)
      (later : SpellsItems items others) :
      SpellsItems (item :: items) (padded ++ ',' :: others)

/-- One or more members with commas between them, each with a colon behind its key. -/
inductive SpellsMembers : List (String × Json) → List Char → Prop where
  | last {key : String} {value : Json} {name paddedName text padded : List Char}
      (named : SpellsString key name) (aroundName : Around name paddedName)
      (spelled : Spells value text) (around : Around text padded) :
      SpellsMembers [(key, value)] (paddedName ++ ':' :: padded)
  | next {key : String} {value : Json} {members : List (String × Json)}
      {name paddedName text padded others : List Char}
      (named : SpellsString key name) (aroundName : Around name paddedName)
      (spelled : Spells value text) (around : Around text padded)
      (later : SpellsMembers members others) :
      SpellsMembers ((key, value) :: members) (paddedName ++ ':' :: (padded ++ ',' :: others))

end

/-- Quotes stand around the written characters of a string. -/
theorem Spells.string_cases {value : String} {text : List Char}
    (spelled : Spells (.string value) text) :
    ∃ body, SpellsChars value.toList body ∧ text = '"' :: (body ++ ['"']) := by
  cases spelled with
  | string spelled =>
      cases spelled with
      | quotes chars => exact ⟨_, chars, rfl⟩

/-- The brackets of an array hold nothing but blanks or its items. -/
theorem Spells.array_cases {items : List Json} {text : List Char}
    (spelled : Spells (.array items) text) :
    ∃ inner, text = '[' :: (inner ++ [']']) ∧
      (items = [] ∧ Blank inner ∨ SpellsItems items inner) := by
  cases spelled with
  | emptyArray blank => exact ⟨_, rfl, .inl ⟨rfl, blank⟩⟩
  | array listed => exact ⟨_, rfl, .inr listed⟩

theorem Spells.object_cases {members : List (String × Json)} {text : List Char}
    (spelled : Spells (.object members) text) :
    ∃ inner, text = '\x7b' :: (inner ++ ['\x7d']) ∧
      (members = [] ∧ Blank inner ∨ SpellsMembers members inner) := by
  cases spelled with
  | emptyObject blank => exact ⟨_, rfl, .inl ⟨rfl, blank⟩⟩
  | object listed => exact ⟨_, rfl, .inr listed⟩

/-- The first item, and the others behind a comma if there are any. -/
theorem SpellsItems.uncons {item : Json} {items : List Json} {inner : List Char}
    (listed : SpellsItems (item :: items) inner) :
    ∃ text padded, Spells item text ∧ Around text padded ∧
      (items = [] ∧ inner = padded ∨
        ∃ others, inner = padded ++ ',' :: others ∧ SpellsItems items others) := by
  cases listed with
  | last spelled around => exact ⟨_, _, spelled, around, .inl ⟨rfl, rfl⟩⟩
  | next spelled around later => exact ⟨_, _, spelled, around, .inr ⟨_, rfl, later⟩⟩

theorem SpellsMembers.uncons {key : String} {value : Json} {members : List (String × Json)}
    {inner : List Char} (listed : SpellsMembers ((key, value) :: members) inner) :
    ∃ name paddedName text padded, SpellsString key name ∧ Around name paddedName ∧
      Spells value text ∧ Around text padded ∧
      (members = [] ∧ inner = paddedName ++ ':' :: padded ∨
        ∃ others, inner = paddedName ++ ':' :: (padded ++ ',' :: others) ∧
          SpellsMembers members others) := by
  cases listed with
  | last named aroundName spelled around =>
      exact ⟨_, _, _, _, named, aroundName, spelled, around, .inl ⟨rfl, rfl⟩⟩
  | next named aroundName spelled around later =>
      exact ⟨_, _, _, _, named, aroundName, spelled, around, .inr ⟨_, rfl, later⟩⟩

theorem blank_nil : Blank [] := by simp [Blank]

theorem Around.self (text : List Char) : Around text text := by
  have bare := @Around.blanks text [] [] blank_nil blank_nil
  rwa [List.nil_append, List.append_nil] at bare

theorem blank_lineBreak (depth : Nat) : Blank (lineBreak depth) := by
  intro char member
  rcases List.mem_cons.mp member with newline | space
  · rw [newline]
    decide
  · rw [List.eq_of_mem_replicate space]
    decide

theorem Read.hexValue?_hexDigit {value : Nat} (digit : value < 16) :
    hexValue? (hexDigit value) = some value := by
  revert value
  decide

theorem codeUnit_hexDigits {code : Nat} (small : code < 256) :
    CodeUnit ['0', '0', hexDigit (code / 16), hexDigit (code % 16)] code := by
  have zero : Read.hexValue? '0' = some 0 := by decide
  have high : Read.hexValue? (hexDigit (code / 16)) = some (code / 16) :=
    Read.hexValue?_hexDigit (by omega)
  have low : Read.hexValue? (hexDigit (code % 16)) = some (code % 16) :=
    Read.hexValue?_hexDigit (by omega)
  have total : ((0 * 16 + 0) * 16 + code / 16) * 16 + code % 16 = code := by omega
  have spelled := CodeUnit.digits zero zero high low
  rwa [total] at spelled

/-- A character is escaped in one of the ways to write it. -/
theorem spellsChar_escapeChar (char : Char) : SpellsChar char (escapeChar char) := by
  unfold escapeChar
  iterate 7
    split
    · subst char
      exact .letter rfl
  split
  · rename_i control
    have unit := codeUnit_hexDigits (Nat.lt_trans control (by decide))
    have spelled := SpellsChar.unit unit (.inl (by omega))
    rwa [Char.ofNat_toNat] at spelled
  · rename_i quote backslash _ _ _ _ _ visible
    exact .itself quote backslash visible

theorem spellsChars_escaped (chars : List Char) :
    SpellsChars chars (chars.flatMap escapeChar) := by
  induction chars with
  | nil => exact .nil
  | cons char chars ih => exact .cons (spellsChar_escapeChar char) ih

theorem spellsString_quoted (text : String) : SpellsString text (quoted text) :=
  .quotes (spellsChars_escaped text.toList)

/-- Only zero is written with a zero in front. -/
theorem digits_head {value : Nat} (positive : value ≠ 0) : (digits value).head? ≠ some '0' := by
  induction value using Nat.strongRecOn with
  | ind value ih =>
      rw [digits]
      by_cases small : value < 10
      · rw [Nat.toDigits_of_lt_base small]
        simpa [Nat.digitChar_eq_zero] using positive
      · have front := ih (value / 10) (by omega) (by omega)
        rw [Nat.toDigits_of_base_le (by decide) (by omega),
          List.head?_append_of_ne_nil _ Nat.toDigits_ne_nil]
        exact front

theorem spellsNumber_digits (value : Nat) : SpellsNumber value (digits value) where
  nonempty := Nat.toDigits_ne_nil
  digits _ member := Nat.isDigit_of_mem_toDigits (by decide) (Nat.le_refl 10) member
  noNeedlessZero zero := by
    by_cases none : value = 0
    · rw [none]
      rfl
    · exact absurd zero (digits_head none)
  total := Nat.ofDigitChars_toDigits (by decide) (Nat.le_refl 10)

/-- Printed items, given that each of them is spelled. -/
theorem spellsItems_pretty (inner outer : Nat) {item : Json} {items : List Json}
    (each : ∀ document ∈ item :: items, Spells document (prettyChars inner document)) :
    SpellsItems (item :: items)
      (lineBreak inner ++ (prettyChars inner item ++
        (prettyItems inner items ++ lineBreak outer))) := by
  induction items generalizing item with
  | nil =>
      have spelled := each item List.mem_cons_self
      rw [prettyItems, List.nil_append]
      exact .last spelled (.blanks (blank_lineBreak inner) (blank_lineBreak outer))
  | cons next items ih =>
      obtain ⟨spelled, others⟩ := List.forall_mem_cons.mp each
      have later := ih others
      have listed := SpellsItems.next spelled
        (.blanks (blank_lineBreak inner) blank_nil) later
      rw [prettyItems]
      simpa only [List.append_assoc, List.cons_append, List.append_nil] using listed

theorem spellsMembers_pretty (inner outer : Nat) {key : String} {value : Json}
    {members : List (String × Json)}
    (each : ∀ entry ∈ (key, value) :: members, Spells entry.2 (prettyChars inner entry.2)) :
    SpellsMembers ((key, value) :: members)
      (lineBreak inner ++ (quoted key ++ (':' :: ' ' :: (prettyChars inner value ++
        (prettyMembers inner members ++ lineBreak outer))))) := by
  have space : Blank [' '] := by
    intro char member
    rw [List.mem_singleton.mp member]
    decide
  induction members generalizing key value with
  | nil =>
      have spelled := each (key, value) List.mem_cons_self
      have listed := SpellsMembers.last (spellsString_quoted key)
        (.blanks (blank_lineBreak inner) blank_nil) spelled (.blanks space (blank_lineBreak outer))
      rw [prettyMembers]
      simpa only [List.append_assoc, List.cons_append, List.append_nil, List.nil_append]
        using listed
  | cons entry members ih =>
      obtain ⟨spelled, others⟩ := List.forall_mem_cons.mp each
      have later := ih others
      have listed := SpellsMembers.next (spellsString_quoted key)
        (.blanks (blank_lineBreak inner) blank_nil) spelled (.blanks space blank_nil) later
      rw [prettyMembers]
      simpa only [List.append_assoc, List.cons_append, List.append_nil, List.nil_append]
        using listed

/-- A printed document is a spelling of it. -/
theorem spells_pretty (depth : Nat) (document : Json) :
    Spells document (prettyChars depth document) := by
  match document with
  | .null =>
      rw [prettyChars]
      exact .null
  | .bool value =>
      rw [prettyChars]
      exact .bool value
  | .number value =>
      rw [prettyChars]
      exact .number (spellsNumber_digits value)
  | .string value =>
      rw [prettyChars]
      exact .string (spellsString_quoted value)
  | .array [] =>
      rw [prettyChars]
      exact .emptyArray blank_nil
  | .array (item :: items) =>
      have listed : SpellsItems (item :: items) _ := spellsItems_pretty (depth + 1) depth
        fun inner member => spells_pretty (depth + 1) inner
      have spelled := Spells.array listed
      rw [prettyChars]
      simpa only [List.append_assoc, List.cons_append] using spelled
  | .object [] =>
      rw [prettyChars]
      exact .emptyObject blank_nil
  | .object ((key, value) :: members) =>
      have listed : SpellsMembers ((key, value) :: members) _ :=
        spellsMembers_pretty (depth + 1) depth
          fun entry member => spells_pretty (depth + 1) entry.2
      have spelled := Spells.object listed
      rw [prettyChars]
      simpa only [List.append_assoc, List.cons_append, List.nil_append] using spelled
termination_by document
decreasing_by
  · have smaller := List.sizeOf_lt_of_mem member
    simp only [Json.array.sizeOf_spec]
    omega
  · have smaller := List.sizeOf_lt_of_mem member
    obtain ⟨name, inner⟩ := entry
    simp only [Prod.mk.sizeOf_spec, Json.object.sizeOf_spec] at smaller ⊢
    omega

end SourceComments.Json
