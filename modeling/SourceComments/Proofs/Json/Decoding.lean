import SourceComments.Json.Reader
import SourceComments.Proofs.Json.Spelling
import Mathlib.Data.List.Forall2

/-! Documents read from their spellings.

A reader takes any spelling of a value off the front of a text, past the blanks before it, as
long as no digit follows that a number could take in. Arrays and objects are read as soon as
what they hold is, so every spelling of a document is read as that document, and a text is a
spelling of one document at most. -/

namespace SourceComments.Json

namespace Read

/-- A natural number that starts right here. -/
def number : Reader Nat := fun text =>
  match text.takeWhile Char.isDigit with
  | [] => .error .malformed
  | '0' :: _ :: _ => .error .malformed
  | digits => .ok (Nat.ofDigitChars 10 digits 0, skipDigits text)

/-- A document of any kind. Each level of nesting takes one round. -/
def value : Nat → Reader Json
  | 0, _ => .error .truncated
  | fuel + 1, text =>
      match skipBlanks text with
      | 'n' :: rest => (keyword ['u', 'l', 'l'] rest).map fun left => (.null, left)
      | 't' :: rest => (keyword ['r', 'u', 'e'] rest).map fun left => (.bool true, left)
      | 'f' :: rest => (keyword ['a', 'l', 's', 'e'] rest).map fun left => (.bool false, left)
      | '"' :: rest => (stringBody rest).map fun (text, left) => (.string text, left)
      | '[' :: rest =>
          (array (value fuel) ('[' :: rest)).map fun (items, left) => (.array items, left)
      | '\x7b' :: rest =>
          (object (value fuel) ('\x7b' :: rest)).map fun (members, left) => (.object members, left)
      | other => (number other).map fun (count, left) => (.number count, left)

end Read

/-- The document that a text spells, with blanks around it or without. -/
def decode (text : String) : Except Fault Json :=
  Read.document (Read.value (text.toList.length + 1)) text.toList

namespace Read

theorem skipBlanks_append {blanks : List Char} (blank : Blank blanks) (text : List Char) :
    skipBlanks (blanks ++ text) = skipBlanks text :=
  List.dropWhile_append_of_pos blank

theorem skipBlanks_cons {char : Char} (solid : isBlank char = false) (text : List Char) :
    skipBlanks (char :: text) = char :: text := by
  rw [skipBlanks, List.dropWhile_cons_of_neg]
  simp [solid]

theorem hexFour_codeUnit {digits : List Char} {unit : Nat} (code : CodeUnit digits unit)
    (rest : List Char) : hexFour (digits ++ rest) = .ok (unit, rest) := by
  cases code with
  | @digits first second third fourth a b c d highest high low lowest =>
      have size : ¬byteLength [first, second, third, fourth] < 4 := by
        simp only [byteLength]
        have := first.utf8Size_pos
        have := second.utf8Size_pos
        have := third.utf8Size_pos
        have := fourth.utf8Size_pos
        omega
      simp only [hexFour, List.cons_append, List.nil_append, List.take_succ_cons, List.take_zero,
        if_neg size, highest, high, low, lowest]

/-- A character is read in whatever way it is written. -/
theorem stringChars_spelled {char : Char} {written : List Char} (spelled : SpellsChar char written)
    (fuel : Nat) (rest : List Char) :
    stringChars (fuel + 1) (written ++ rest) =
      (stringChars fuel rest).map fun (chars, left) => (char :: chars, left) := by
  cases spelled with
  | itself unquoted plain visible =>
      rw [List.singleton_append, stringChars]
      · rw [if_neg visible]
      · exact unquoted
      · exact plain
  | @letter _ letter meaning =>
      have shown : escape (letter :: rest) = .ok (char, rest) := by
        rw [escape, meaning]
        rintro rfl
        cases meaning
      simp only [List.cons_append, List.nil_append, stringChars, shown]
  | unit code basic =>
      simp only [List.cons_append, stringChars, escape, unicodeEscape, hexFour_codeUnit code,
        if_pos basic]
  | @pair digits others lead trail first second isLead isTrail =>
      have surrogate : ¬(lead < 0xD800 ∨ 0xDFFF < lead) := by omega
      have leads : ¬0xDC00 ≤ lead := by omega
      simp only [List.cons_append, List.append_assoc, stringChars, escape, unicodeEscape,
        hexFour_codeUnit first, hexFour_codeUnit second, lowSurrogate, if_neg surrogate,
        if_neg leads, if_pos isTrail]

theorem stringChars_spelledAll {chars body : List Char} (spelled : SpellsChars chars body)
    {fuel : Nat} (enough : body.length < fuel) (rest : List Char) :
    stringChars fuel (body ++ '"' :: rest) = .ok (chars, rest) := by
  induction spelled generalizing fuel with
  | nil =>
      obtain ⟨fuel, rfl⟩ := Nat.exists_eq_add_one.mpr enough
      rfl
  | @cons char chars written others first later ih =>
      have nonempty : 0 < written.length := by cases first <;> exact Nat.succ_pos _
      rw [List.length_append] at enough
      obtain ⟨fuel, rfl⟩ := Nat.exists_eq_add_one.mpr (Nat.zero_lt_of_lt enough)
      rw [List.append_assoc, stringChars_spelled first, ih (by omega)]
      rfl

/-- A spelled string, its opening quote passed. -/
theorem stringBody_spelled {text : String} {body : List Char}
    (spelled : SpellsChars text.toList body) (rest : List Char) :
    stringBody (body ++ '"' :: rest) = .ok (text, rest) := by
  rw [stringBody, stringChars_spelledAll spelled]
  · simp only [Except.map, String.ofList_toList]
  · rw [List.length_append]
    omega

theorem skipDigits_append {text rest : List Char} (digits : ∀ char ∈ text, char.isDigit = true)
    (stops : startsWithDigit rest = false) : skipDigits (text ++ rest) = rest := by
  rw [skipDigits, List.dropWhile_append_of_pos digits]
  cases rest with
  | nil => rfl
  | cons char rest => exact List.dropWhile_cons_of_neg (by simpa [startsWithDigit] using stops)

theorem number_spelled {count : Nat} {text : List Char} (spelled : SpellsNumber count text)
    {rest : List Char} (stops : startsWithDigit rest = false) :
    number (text ++ rest) = .ok (count, rest) := by
  have unfit : rest.takeWhile Char.isDigit = [] := by
    cases rest with
    | nil => rfl
    | cons char rest => exact List.takeWhile_cons_of_neg (by simpa [startsWithDigit] using stops)
  have taken : (text ++ rest).takeWhile Char.isDigit = text := by
    rw [List.takeWhile_append_of_pos spelled.digits, unfit, List.append_nil]
  have left : skipDigits (text ++ rest) = rest := skipDigits_append spelled.digits stops
  rw [number, taken, left]
  split
  · exact absurd rfl spelled.nonempty
  · have single := spelled.noNeedlessZero rfl
    simp at single
  · rw [spelled.total]

theorem ne_of_digit {char letter : Char} (digit : char.isDigit = true)
    (strange : letter.isDigit = false) : char ≠ letter := by
  rintro rfl
  rw [digit] at strange
  cases strange

/-- A digit is taken neither for a blank nor for the end of an item. -/
theorem digit_starts {char : Char} (digit : char.isDigit = true) :
    isBlank char = false ∧ char ≠ ']' ∧ char ≠ ',' := by
  have other (letter : Char) (strange : letter.isDigit = false) := ne_of_digit digit strange
  refine ⟨?_, other ']' rfl, other ',' rfl⟩
  simp [isBlank, other ' ' rfl, other '\n' rfl, other '\t' rfl, other '\r' rfl]

/-- A spelling starts with a character of its own. -/
theorem spells_starts {document : Json} {text : List Char} (spelled : Spells document text) :
    ∃ char rest, text = char :: rest ∧ isBlank char = false ∧ char ≠ ']' ∧ char ≠ ',' := by
  cases spelled with
  | null => exact ⟨_, _, rfl, by decide⟩
  | bool value => cases value <;> exact ⟨_, _, rfl, by decide⟩
  | number spelled =>
      obtain ⟨char, rest, rfl⟩ := List.exists_cons_of_ne_nil spelled.nonempty
      exact ⟨char, rest, rfl, digit_starts (spelled.digits char List.mem_cons_self)⟩
  | string spelled =>
      obtain ⟨body, -, rfl⟩ := (Spells.string spelled).string_cases
      exact ⟨_, _, rfl, by decide⟩
  | emptyArray => exact ⟨_, _, rfl, by decide⟩
  | array => exact ⟨_, _, rfl, by decide⟩
  | emptyObject => exact ⟨_, _, rfl, by decide⟩
  | object => exact ⟨_, _, rfl, by decide⟩

theorem startsWithDigit_blank {blanks rest : List Char} (blank : Blank blanks)
    (stops : startsWithDigit rest = false) : startsWithDigit (blanks ++ rest) = false := by
  cases blanks with
  | nil => exact stops
  | cons char blanks =>
      rw [List.cons_append, startsWithDigit, Bool.eq_false_iff]
      intro digit
      have solid := (digit_starts digit).1
      rw [blank char List.mem_cons_self] at solid
      cases solid

/-- What stands in front of an item or a member: nothing before the first one, and a comma
before every other. -/
inductive Leads : Bool → List Char → Prop where
  | first : Leads true []
  | later {blanks : List Char} (blank : Blank blanks) : Leads false (blanks ++ [','])

section

variable {isFirst : Bool} {lead blanks : List Char}

theorem nextItem_spelled (leads : Leads isFirst lead) (blank : Blank blanks) {document : Json}
    {text : List Char} (spelled : Spells document text) (rest : List Char) :
    nextItem isFirst (lead ++ (blanks ++ (text ++ rest))) = .ok (true, text ++ rest) := by
  obtain ⟨char, more, rfl, solid, noBracket, noComma⟩ := spells_starts spelled
  cases leads with
  | first =>
      rw [List.nil_append, nextItem, skipBlanks_append blank, List.cons_append,
        skipBlanks_cons solid]
      simp [noBracket, noComma]
  | later blankBefore =>
      rw [List.append_assoc, List.singleton_append, nextItem, skipBlanks_append blankBefore,
        skipBlanks_cons (by decide)]
      simp only [Bool.false_eq_true, if_false, skipBlanks_append blank, List.cons_append,
        skipBlanks_cons solid]
      split
      · rename_i empty
        cases empty
      · rename_i closes
        exact absurd (List.cons.inj closes).1 noBracket
      · rfl

theorem nextItem_end (blank : Blank blanks) (rest : List Char) :
    nextItem isFirst (blanks ++ ']' :: rest) = .ok (false, ']' :: rest) := by
  rw [nextItem, skipBlanks_append blank, skipBlanks_cons (by decide)]
  rfl

theorem nextKey_spelled (leads : Leads isFirst lead) (blank : Blank blanks) {key : String}
    {name : List Char} (named : SpellsString key name) (rest : List Char) :
    nextKey isFirst (lead ++ (blanks ++ (name ++ rest))) = .ok (some key, rest) := by
  cases named with
  | quotes chars =>
      have quote : isBlank '"' = false := by decide
      have body := stringBody_spelled chars rest
      cases leads with
      | first =>
          rw [List.nil_append, nextKey, skipBlanks_append blank, List.cons_append,
            skipBlanks_cons quote, List.append_assoc, List.singleton_append]
          simp [body, Except.map]
      | later blankBefore =>
          rw [List.append_assoc, List.singleton_append, nextKey, skipBlanks_append blankBefore,
            skipBlanks_cons (by decide)]
          simp only [Bool.false_eq_true, if_false, skipBlanks_append blank, List.cons_append,
            List.append_assoc, List.nil_append, skipBlanks_cons quote, body, Except.map]

theorem nextKey_end (blank : Blank blanks) (rest : List Char) :
    nextKey isFirst (blanks ++ '\x7d' :: rest) = .ok (none, rest) := by
  rw [nextKey, skipBlanks_append blank, skipBlanks_cons (by decide)]
  rfl

theorem colon_spelled (blank : Blank blanks) (rest : List Char) :
    colon (blanks ++ ':' :: rest) = .ok rest := by
  rw [colon, skipBlanks_append blank, skipBlanks_cons (by decide)]
  rfl

end

section

variable {α : Type} {item : Reader α} {fuel : Nat} {isFirst : Bool} {value : α}
  {text here rest left : List Char}

/-- One item and what comes after it. -/
theorem items_cons {others : List α} (goesOn : nextItem isFirst text = .ok (true, here))
    (taken : item here = .ok (value, rest))
    (later : items item fuel false rest = .ok (others, left)) :
    items item (fuel + 1) isFirst text = .ok (value :: others, left) := by
  simp only [items, goesOn, taken, later, bind, Except.bind, if_true]

/-- One member and what comes after it. -/
theorem members_cons {key : String} {after : List Char} {others : List (String × α)}
    (goesOn : nextKey isFirst text = .ok (some key, after)) (divided : colon after = .ok here)
    (taken : item here = .ok (value, rest))
    (later : members item fuel false rest = .ok (others, left)) :
    members item (fuel + 1) isFirst text = .ok ((key, value) :: others, left) := by
  simp only [members, goesOn, divided, taken, later, bind, Except.bind]

end

/-- The reader takes every spelling of the document below the given length for the value. -/
def Takes {α : Type} (bound : Nat) (item : Reader α) (document : Json) (value : α) : Prop :=
  ∀ ⦃text : List Char⦄, Spells document text → text.length < bound →
    ∀ ⦃blanks rest : List Char⦄, Blank blanks → startsWithDigit rest = false →
      item (blanks ++ (text ++ rest)) = .ok (value, rest)

theorem string_takes (bound : Nat) (text : String) : Takes bound string (.string text) text := by
  intro written spelled _ blanks rest blank _
  obtain ⟨body, chars, rfl⟩ := spelled.string_cases
  rw [string, skipBlanks_append blank, List.cons_append, skipBlanks_cons (by decide),
    List.append_assoc, List.singleton_append]
  exact stringBody_spelled chars rest

section

variable {α : Type} {bound : Nat} {item : Reader α}

/-- The items up to the closing bracket, whatever blanks stand between them. -/
theorem items_take {documents : List Json} {values : List α}
    (each : List.Forall₂ (Takes bound item) documents values) {inner : List Char}
    (listed : SpellsItems documents inner) (short : inner.length < bound)
    {isFirst : Bool} {lead : List Char} (leads : Leads isFirst lead) {fuel : Nat}
    (enough : inner.length < fuel) (rest : List Char) :
    items item fuel isFirst (lead ++ (inner ++ ']' :: rest)) = .ok (values, ']' :: rest) := by
  induction each generalizing inner isFirst lead fuel with
  | nil => cases listed
  | cons takes eachLater ih =>
      obtain ⟨fuel, rfl⟩ := Nat.exists_eq_add_one.mpr (Nat.zero_lt_of_lt enough)
      obtain ⟨text, _, spelled, ⟨blankBefore, blankAfter⟩, final⟩ := listed.uncons
      have nonempty : 0 < text.length := by
        obtain ⟨_, _, rfl, -⟩ := spells_starts spelled
        exact Nat.succ_pos _
      rcases final with ⟨rfl, rfl⟩ | ⟨others, rfl, later⟩
      · -- Behind the last item one more round comes to the bracket.
        cases eachLater
        simp only [List.length_append] at short enough
        obtain ⟨fuel, rfl⟩ := Nat.exists_eq_add_one.mpr (show 0 < fuel by omega)
        simp only [List.append_assoc]
        apply items_cons (nextItem_spelled leads blankBefore spelled _)
        · exact takes spelled (by omega) blank_nil (startsWithDigit_blank blankAfter rfl)
        · rw [items, nextItem_end blankAfter]
          rfl
      · -- The comma with the blanks before it leads to the others.
        simp only [List.length_append, List.length_cons] at short enough
        simp only [List.append_assoc, List.cons_append]
        apply items_cons (nextItem_spelled leads blankBefore spelled _)
        · exact takes spelled (by omega) blank_nil (startsWithDigit_blank blankAfter rfl)
        · have onward := ih later (by omega) (.later blankAfter)
            (show others.length < fuel by omega)
          rwa [List.append_assoc, List.singleton_append] at onward

/-- An array is read if its items are. -/
theorem array_takes {documents : List Json} {values : List α}
    (each : List.Forall₂ (Takes bound item) documents values) :
    Takes (bound + 1) (array item) (.array documents) values := by
  intro text spelled short blanks rest blank _
  obtain ⟨inner, rfl, listed⟩ := spelled.array_cases
  simp only [List.length_cons, List.length_append] at short
  rw [List.cons_append, List.append_assoc, List.singleton_append, array, skipBlanks_append blank,
    skipBlanks_cons (by decide)]
  have found : items item ((inner ++ ']' :: rest).length + 1) true (inner ++ ']' :: rest) =
      .ok (values, ']' :: rest) := by
    rcases listed with ⟨rfl, blankInner⟩ | listed
    · cases each
      rw [items, nextItem_end blankInner]
      rfl
    · apply items_take each listed (by omega) .first
      simp only [List.length_append]
      omega
  simp only [found, bind, Except.bind]
  rfl

/-- The members up to the closing brace. Each entry has the key of its member, and the
member's value is read as the entry's. -/
theorem members_take {documents : List (String × Json)} {entries : List (String × α)}
    (each : List.Forall₂ (fun document entry =>
      document.1 = entry.1 ∧ Takes bound item document.2 entry.2) documents entries)
    {inner : List Char} (listed : SpellsMembers documents inner) (short : inner.length < bound)
    {isFirst : Bool} {lead : List Char} (leads : Leads isFirst lead) {fuel : Nat}
    (enough : inner.length < fuel) (rest : List Char) :
    members item fuel isFirst (lead ++ (inner ++ '\x7d' :: rest)) = .ok (entries, rest) := by
  induction each generalizing inner isFirst lead fuel with
  | nil => cases listed
  | @cons document entry _ _ taken eachLater ih =>
      obtain ⟨same, takes⟩ := taken
      obtain ⟨fuel, rfl⟩ := Nat.exists_eq_add_one.mpr (Nat.zero_lt_of_lt enough)
      obtain ⟨name, _, text, _, named, ⟨blankName, blankColon⟩, spelled,
        ⟨blankBefore, blankAfter⟩, final⟩ := listed.uncons
      rw [same] at named
      rcases final with ⟨rfl, rfl⟩ | ⟨others, rfl, later⟩
      · cases eachLater
        simp only [List.length_append, List.length_cons] at short enough
        obtain ⟨fuel, rfl⟩ := Nat.exists_eq_add_one.mpr (show 0 < fuel by omega)
        simp only [List.append_assoc, List.cons_append]
        apply members_cons (nextKey_spelled leads blankName named _) (colon_spelled blankColon _)
        · exact takes spelled (by omega) blankBefore (startsWithDigit_blank blankAfter rfl)
        · rw [members, nextKey_end blankAfter]
          rfl
      · simp only [List.length_append, List.length_cons] at short enough
        simp only [List.append_assoc, List.cons_append]
        apply members_cons (nextKey_spelled leads blankName named _) (colon_spelled blankColon _)
        · exact takes spelled (by omega) blankBefore (startsWithDigit_blank blankAfter rfl)
        · have onward := ih later (by omega) (.later blankAfter)
            (show others.length < fuel by omega)
          rwa [List.append_assoc, List.singleton_append] at onward

/-- An object is read if its members' values are. -/
theorem object_takes {documents : List (String × Json)} {entries : List (String × α)}
    (each : List.Forall₂ (fun document entry =>
      document.1 = entry.1 ∧ Takes bound item document.2 entry.2) documents entries) :
    Takes (bound + 1) (object item) (.object documents) entries := by
  intro text spelled short blanks rest blank _
  obtain ⟨inner, rfl, listed⟩ := spelled.object_cases
  simp only [List.length_cons, List.length_append] at short
  rw [List.cons_append, List.append_assoc, List.singleton_append, object, skipBlanks_append blank,
    skipBlanks_cons (by decide)]
  rcases listed with ⟨rfl, blankInner⟩ | listed
  · cases each
    simp only [members, nextKey_end blankInner, bind, Except.bind]
  · apply members_take each listed (by omega) .first
    simp only [List.length_append]
    omega

end

/-- A digit can only start a number. -/
theorem value_number {char : Char} (digit : char.isDigit = true) (fuel : Nat) (rest : List Char) :
    value (fuel + 1) (char :: rest) =
      (number (char :: rest)).map fun (count, left) => (.number count, left) := by
  have other (letter : Char) (strange : letter.isDigit = false) := ne_of_digit digit strange
  rw [value, skipBlanks_cons (digit_starts digit).1]
  simp [other 'n' rfl, other 't' rfl, other 'f' rfl, other '"' rfl, other '[' rfl,
    other '\x7b' rfl]

/-- Every spelling of a document is read as that document. -/
theorem value_takes (fuel : Nat) (document : Json) :
    Takes fuel (value fuel) document document := by
  -- What an array or an object holds is shorter than its own text, so the rounds are enough.
  induction fuel generalizing document with
  | zero =>
      intro text _ short
      cases short
  | succ fuel ih =>
      intro text spelled short blanks rest blank stops
      have past :
          value (fuel + 1) (blanks ++ (text ++ rest)) = value (fuel + 1) (text ++ rest) := by
        rw [value, value, skipBlanks_append blank]
      rw [past]
      cases document with
      | null =>
          cases spelled
          rfl
      | bool value =>
          cases spelled
          cases value <;> rfl
      | number count =>
          cases spelled with
          | number spelled =>
              obtain ⟨char, more, rfl⟩ := List.exists_cons_of_ne_nil spelled.nonempty
              have digit := spelled.digits char List.mem_cons_self
              rw [List.cons_append, value_number digit, ← List.cons_append,
                number_spelled spelled stops]
              rfl
      | string content =>
          obtain ⟨body, chars, rfl⟩ := spelled.string_cases
          rw [value, List.cons_append, skipBlanks_cons (by decide), List.append_assoc,
            List.singleton_append]
          exact congrArg (Except.map _) (stringBody_spelled chars rest)
      | array items =>
          have takes : Takes (fuel + 1) (array (value fuel)) (.array items) items :=
            array_takes (List.forall₂_same.mpr fun item _ => ih item)
          have read := takes spelled short blank_nil stops
          obtain ⟨inner, rfl, -⟩ := spelled.array_cases
          rw [value, List.cons_append, skipBlanks_cons (by decide)]
          exact congrArg (Except.map _) read
      | object members =>
          have takes : Takes (fuel + 1) (object (value fuel)) (.object members) members :=
            object_takes (List.forall₂_same.mpr fun member _ => ⟨rfl, ih member.2⟩)
          have read := takes spelled short blank_nil stops
          obtain ⟨inner, rfl, -⟩ := spelled.object_cases
          rw [value, List.cons_append, skipBlanks_cons (by decide)]
          exact congrArg (Except.map _) read

end Read

/-- A text is a spelling of one document at most. -/
theorem Spells.unique {left right : Json} {text : List Char} (spelled : Spells left text)
    (spelledToo : Spells right text) : left = right := by
  have short : text.length < text.length + 1 := Nat.lt_succ_self _
  have ended : Read.startsWithDigit [] = false := rfl
  have read := Read.value_takes _ left spelled short blank_nil ended
  have readToo := Read.value_takes _ right spelledToo short blank_nil ended
  rw [read] at readToo
  exact (Prod.mk.inj (Except.ok.inj readToo)).1

/-- A document is complete if nothing but blanks is left behind its value. -/
theorem Read.document_of_taken {α : Type} {item : Reader α} {text rest : List Char} {result : α}
    (taken : item text = .ok (result, rest)) (blank : Blank rest) :
    document item text = .ok result := by
  have left := skipBlanks_append blank []
  rw [List.append_nil] at left
  simp only [document, taken, left, bind, Except.bind]
  rfl

/-- Every spelling is decoded, with blanks around it or without. -/
theorem decode_spelled {document : Json} {written : List Char} {text : String}
    (spelled : Spells document written) (around : Around written text.toList) :
    decode text = .ok document := by
  rw [decode]
  generalize text.toList = padded at around
  obtain ⟨blankBefore, blankAfter⟩ := around
  have stops : Read.startsWithDigit (_ ++ []) = false := Read.startsWithDigit_blank blankAfter rfl
  rw [List.append_nil] at stops
  apply Read.document_of_taken _ blankAfter
  apply Read.value_takes _ document spelled _ blankBefore stops
  simp only [List.length_append]
  omega

end SourceComments.Json
