import SourceComments.Json.Skip
import SourceComments.Proofs.Json.Decoding
import Mathlib.Data.List.DropRight

/-! Values of any kind, passed over.

A value that nothing is read from only has to be well formed: numbers of any size, escapes with
surrogates left alone, arrays and objects of any depth. Skipping keeps the arrays and objects it
has entered on a list, and takes a number of rounds that the length of the value bounds; after
these it stands right behind the value, inside the same frames as before. -/

namespace SourceComments.Json

/-- One or more decimal digits. -/
def Digits (text : List Char) : Prop := text ≠ [] ∧ ∀ char ∈ text, char.isDigit = true

/-- The digits before the point of a number. -/
def Whole (text : List Char) : Prop := Digits text ∧ (text.head? = some '0' → text = ['0'])

inductive Fraction : List Char → Prop where
  | none : Fraction []
  | point {text : List Char} (digits : Digits text) : Fraction ('.' :: text)

inductive Exponent : List Char → Prop where
  | none : Exponent []
  | power {letter : Char} {sign text : List Char} (marked : letter = 'e' ∨ letter = 'E')
      (signed : sign = [] ∨ sign = ['+'] ∨ sign = ['-']) (digits : Digits text) :
      Exponent (letter :: (sign ++ text))

/-- A number of any size. -/
inductive FormedNumber : List Char → Prop where
  | parts {sign whole fraction exponent : List Char} (signed : sign = [] ∨ sign = ['-'])
      (isWhole : Whole whole) (isFraction : Fraction fraction) (isExponent : Exponent exponent) :
      FormedNumber (sign ++ (whole ++ (fraction ++ exponent)))

/-- What may stand between the quotes of a string. A code unit may be half of a pair. -/
inductive FormedChars : List Char → Prop where
  | nil : FormedChars []
  | itself {char : Char} {rest : List Char} (unquoted : char ≠ '"') (plain : char ≠ '\\')
      (visible : ¬char.toNat < 32) (later : FormedChars rest) : FormedChars (char :: rest)
  | letter {letter : Char} {rest : List Char} (known : (Read.shortEscape? letter).isSome)
      (later : FormedChars rest) : FormedChars ('\\' :: letter :: rest)
  | unit {digits rest : List Char} {unit : Nat} (code : CodeUnit digits unit)
      (later : FormedChars rest) : FormedChars ('\\' :: 'u' :: (digits ++ rest))

inductive FormedString : List Char → Prop where
  | quotes {body : List Char} (chars : FormedChars body) : FormedString ('"' :: (body ++ ['"']))

/-- The parts of a document that are made of others. -/
inductive Part where
  | value
  | items
  | members

/-- The text is well formed as this part of a document: a value without blanks around it, one or
more items, or one or more members. -/
inductive Formed : Part → List Char → Prop where
  | null : Formed .value ['n', 'u', 'l', 'l']
  | bool (value : Bool) : Formed .value (word value)
  | number {text : List Char} (formed : FormedNumber text) : Formed .value text
  | string {text : List Char} (formed : FormedString text) : Formed .value text
  | emptyArray {blanks : List Char} (blank : Blank blanks) :
      Formed .value ('[' :: (blanks ++ [']']))
  | array {text : List Char} (items : Formed .items text) : Formed .value ('[' :: (text ++ [']']))
  | emptyObject {blanks : List Char} (blank : Blank blanks) :
      Formed .value ('\x7b' :: (blanks ++ ['\x7d']))
  | object {text : List Char} (members : Formed .members text) :
      Formed .value ('\x7b' :: (text ++ ['\x7d']))
  | lastItem {text padded : List Char} (value : Formed .value text) (around : Around text padded) :
      Formed .items padded
  | nextItem {text padded others : List Char} (value : Formed .value text)
      (around : Around text padded) (later : Formed .items others) :
      Formed .items (padded ++ ',' :: others)
  | lastMember {name paddedName text padded : List Char} (named : FormedString name)
      (aroundName : Around name paddedName) (value : Formed .value text)
      (around : Around text padded) : Formed .members (paddedName ++ ':' :: padded)
  | nextMember {name paddedName text padded others : List Char} (named : FormedString name)
      (aroundName : Around name paddedName) (value : Formed .value text)
      (around : Around text padded) (later : Formed .members others) :
      Formed .members (paddedName ++ ':' :: (padded ++ ',' :: others))

namespace Read

/-- What can stand behind a value: the end of the text, a blank, a comma or a closing bracket. -/
def Delimited (rest : List Char) : Prop :=
  ∀ char ∈ rest.head?, isBlank char = true ∨ char = ',' ∨ char = ']' ∨ char = '\x7d'

theorem delimited_cases {rest : List Char} (delimited : Delimited rest) :
    rest = [] ∨ ∃ char more, rest = char :: more ∧
      char ∈ [' ', '\n', '\t', '\r', ',', ']', '\x7d'] := by
  cases rest with
  | nil => exact .inl rfl
  | cons char more =>
      refine .inr ⟨char, more, rfl, ?_⟩
      have known := delimited char rfl
      simp only [isBlank, Bool.or_eq_true, beq_iff_eq] at known
      simpa [or_assoc] using known

theorem Delimited.stops {rest : List Char} (delimited : Delimited rest) :
    startsWithDigit rest = false := by
  rcases delimited_cases delimited with rfl | ⟨char, more, rfl, known⟩
  · rfl
  · simp only [List.mem_cons, List.not_mem_nil, or_false] at known
    rcases known with rfl | rfl | rfl | rfl | rfl | rfl | rfl <;> rfl

theorem delimited_blank {blanks rest : List Char} (blank : Blank blanks)
    (delimited : Delimited rest) : Delimited (blanks ++ rest) := by
  cases blanks with
  | nil => exact delimited
  | cons char blanks =>
      intro first here
      obtain rfl : char = first := by simpa using here
      exact .inl (blank char List.mem_cons_self)

theorem delimited_cons {char : Char} (ends : char ∈ [',', ']', '\x7d']) (rest : List Char) :
    Delimited (char :: rest) := by
  intro first here
  obtain rfl : char = first := by simpa using here
  exact .inr (by simpa using ends)

section

variable {text rest : List Char}

theorem startsWithDigit_append (digits : Digits text) (rest : List Char) :
    startsWithDigit (text ++ rest) = true := by
  obtain ⟨char, more, rfl⟩ := List.exists_cons_of_ne_nil digits.1
  exact digits.2 char List.mem_cons_self

theorem skipExponent_formed {sign : List Char} (signed : sign = [] ∨ sign = ['+'] ∨ sign = ['-'])
    (digits : Digits text) (stops : startsWithDigit rest = false) :
    skipExponent (sign ++ (text ++ rest)) = .ok rest := by
  have starts := startsWithDigit_append digits rest
  have passed := skipDigits_append digits.2 stops
  rcases signed with rfl | rfl | rfl
  · rw [List.nil_append, skipExponent, if_pos starts, passed]
    · intro more plus
      rw [plus] at starts
      cases starts
    · intro more minus
      rw [minus] at starts
      cases starts
  · simp only [skipExponent, List.cons_append, List.nil_append, starts, passed, if_true]
  · simp only [skipExponent, List.cons_append, List.nil_append, starts, passed, if_true]

theorem skipFraction_exponent {exponent : List Char} (isExponent : Exponent exponent)
    (delimited : Delimited rest) : skipFraction (exponent ++ rest) = .ok rest := by
  cases isExponent with
  | none =>
      rcases delimited_cases delimited with rfl | ⟨char, more, rfl, known⟩
      · rfl
      · simp only [List.mem_cons, List.not_mem_nil, or_false] at known
        rcases known with rfl | rfl | rfl | rfl | rfl | rfl | rfl <;> rfl
  | power marked signed digits =>
      have passed := skipExponent_formed signed digits delimited.stops
      rcases marked with rfl | rfl
      · simpa [skipFraction] using passed
      · simpa [skipFraction] using passed

/-- What follows the digits in front of an exponent goes on neither with a digit nor with a
point. -/
theorem exponent_starts {exponent : List Char} (isExponent : Exponent exponent)
    (delimited : Delimited rest) :
    startsWithDigit (exponent ++ rest) = false ∧ (exponent ++ rest).head? ≠ some '.' := by
  cases isExponent with
  | none =>
      refine ⟨delimited.stops, fun point => ?_⟩
      simpa [isBlank] using delimited '.' point
  | power marked _ _ => rcases marked with rfl | rfl <;> exact ⟨rfl, by simp⟩

theorem skipFraction_point (digits : startsWithDigit text = true)
    (pointless : (skipDigits text).head? ≠ some '.') :
    skipFraction ('.' :: text) = skipFraction (skipDigits text) := by
  rw [skipFraction, if_pos digits, skipFraction.eq_def (skipDigits text)]
  split
  · rename_i point
    simp [point] at pointless
  · rfl

theorem skipFraction_formed {fraction exponent : List Char} (isFraction : Fraction fraction)
    (isExponent : Exponent exponent) (delimited : Delimited rest) :
    skipFraction (fraction ++ (exponent ++ rest)) = .ok rest := by
  have onward := skipFraction_exponent isExponent delimited
  cases isFraction with
  | none => exact onward
  | @point text digits =>
      obtain ⟨stops, pointless⟩ := exponent_starts isExponent delimited
      have passed := skipDigits_append digits.2 stops
      rw [List.cons_append, skipFraction_point (startsWithDigit_append digits _), passed, onward]
      rwa [passed]

theorem fraction_starts {fraction exponent : List Char} (isFraction : Fraction fraction)
    (isExponent : Exponent exponent) (delimited : Delimited rest) :
    startsWithDigit (fraction ++ (exponent ++ rest)) = false := by
  cases isFraction with
  | none => exact (exponent_starts isExponent delimited).1
  | point digits => rfl

/-- A number without its sign, whatever its size. -/
theorem skipNumber_formed {whole fraction exponent : List Char} (isWhole : Whole whole)
    (isFraction : Fraction fraction) (isExponent : Exponent exponent)
    (delimited : Delimited rest) :
    skipNumber (whole ++ (fraction ++ (exponent ++ rest))) = .ok rest := by
  have onward := skipFraction_formed isFraction isExponent delimited
  have stops := fraction_starts isFraction isExponent delimited
  obtain ⟨digits, noNeedlessZero⟩ := isWhole
  by_cases zero : whole.head? = some '0'
  · rw [noNeedlessZero zero, List.singleton_append, skipNumber, stops]
    exact onward
  · rw [skipNumber.eq_def]
    split
    · rename_i more same
      rw [← List.head?_append_of_ne_nil whole digits.1, same] at zero
      exact absurd rfl zero
    · rw [if_pos (startsWithDigit_append digits _), skipDigits_append digits.2 stops, onward]

/-- A string whose opening quote has been passed. -/
theorem skipString_formed {body : List Char} (chars : FormedChars body) {fuel : Nat}
    (enough : body.length < fuel) : skipString fuel (body ++ '"' :: rest) = .ok rest := by
  induction chars generalizing fuel with
  | nil =>
      obtain ⟨fuel, rfl⟩ := Nat.exists_eq_add_one.mpr enough
      rfl
  | itself unquoted plain visible _ ih =>
      rw [List.length_cons] at enough
      obtain ⟨fuel, rfl⟩ := Nat.exists_eq_add_one.mpr (Nat.zero_lt_of_lt enough)
      have passed := ih (Nat.lt_of_succ_lt_succ enough)
      simpa [skipString, unquoted, plain, visible] using passed
  | @letter letter body known _ ih =>
      rw [List.length_cons, List.length_cons] at enough
      obtain ⟨fuel, rfl⟩ := Nat.exists_eq_add_one.mpr (Nat.zero_lt_of_lt enough)
      have passed := ih (show body.length < fuel by omega)
      have short : letter ≠ 'u' := by
        rintro rfl
        cases known
      simpa [skipString, short, known] using passed
  | @unit digits body unit code _ ih =>
      rw [List.length_cons, List.length_cons, List.length_append] at enough
      obtain ⟨fuel, rfl⟩ := Nat.exists_eq_add_one.mpr (Nat.zero_lt_of_lt enough)
      have passed := ih (show body.length < fuel by omega)
      simpa [skipString, hexFour_codeUnit code] using passed

theorem skipKey_formed {name blanks blanksAfter : List Char} (named : FormedString name)
    (blank : Blank blanks) (blankAfter : Blank blanksAfter) (rest : List Char) :
    skipKey (blanks ++ (name ++ (blanksAfter ++ ':' :: rest))) = .ok rest := by
  cases named with
  | @quotes body chars =>
      have passed : skipString ((body ++ '"' :: (blanksAfter ++ ':' :: rest)).length + 1)
          (body ++ '"' :: (blanksAfter ++ ':' :: rest)) = .ok (blanksAfter ++ ':' :: rest) := by
        apply skipString_formed chars
        rw [List.length_append]
        omega
      rw [skipKey, skipBlanks_append blank, List.cons_append, skipBlanks_cons (by decide),
        List.append_assoc, List.singleton_append]
      simp only [passed, skipBlanks_append blankAfter]
      rw [skipBlanks_cons (by decide)]
      rfl

end

/-- What happens behind a value: frames are left where they end, and skipping goes on with the
next value of the one that does not. -/
def goOn (fuel : Nat) (frames : List Frame) (after : List Char) : Except Fault (List Char) :=
  match leave frames after with
  | .error fault => .error fault
  | .ok ([], rest) => .ok rest
  | .ok (frame :: outer, rest) => skipWithin fuel (frame :: outer) rest

section

variable {fuel : Nat} {frames : List Frame} {blanks rest : List Char}

theorem goOn_blanks (frame : Frame) (blank : Blank blanks) (after : List Char) :
    goOn fuel (frame :: frames) (blanks ++ after) = goOn fuel (frame :: frames) after := by
  rw [goOn, goOn, leave, leave, skipBlanks_append blank]

theorem goOn_closer (frame : Frame) (rest : List Char) :
    goOn fuel (frame :: frames) (frame.closer :: rest) = goOn fuel frames rest := by
  have solid : isBlank frame.closer = false := by cases frame <;> decide
  rw [goOn, leave, skipBlanks_cons solid]
  simp only [if_true]
  rfl

theorem goOn_comma_array (rest : List Char) :
    goOn fuel (.array :: frames) (',' :: rest) = skipWithin fuel (.array :: frames) rest := by
  rw [goOn, leave, skipBlanks_cons (by decide)]
  rfl

theorem goOn_comma_object {value : List Char} (key : skipKey rest = .ok value) :
    goOn fuel (.object :: frames) (',' :: rest) = skipWithin fuel (.object :: frames) value := by
  rw [goOn, leave, skipBlanks_cons (by decide)]
  simp [Frame.closer, key, Except.map]

theorem skipBlanks_skipBlanks (text : List Char) :
    skipBlanks (skipBlanks text) = skipBlanks text :=
  List.dropWhile_idempotent isBlank text

theorem skipWithin_skipBlanks (fuel : Nat) (frames : List Frame) (text : List Char) :
    skipWithin fuel frames (skipBlanks text) = skipWithin fuel frames text := by
  cases fuel with
  | zero => rfl
  | succ fuel => rw [skipWithin, skipWithin, skipBlanks_skipBlanks]

theorem skipKey_skipBlanks (text : List Char) : skipKey (skipBlanks text) = skipKey text := by
  rw [skipKey, skipKey, skipBlanks_skipBlanks]

theorem skipWithin_scalar {char : Char} {more : List Char} (blank : Blank blanks)
    (solid : isBlank char = false) (noArray : char ≠ '[') (noObject : char ≠ '\x7b')
    (passed : skipScalar (char :: more) = .ok rest) :
    skipWithin (fuel + 1) frames (blanks ++ char :: more) = goOn fuel frames rest := by
  rw [skipWithin, skipBlanks_append blank, skipBlanks_cons solid]
  split
  · rename_i opens
    exact absurd (List.cons.inj opens).1 noArray
  · rename_i opens
    exact absurd (List.cons.inj opens).1 noObject
  · rw [passed]
    rfl

theorem skipWithin_array {items : List Char} (blank : Blank blanks)
    (starts : ∃ char more, skipBlanks items = char :: more ∧ char ≠ ']') :
    skipWithin (fuel + 1) frames (blanks ++ '[' :: items) =
      skipWithin fuel (.array :: frames) items := by
  obtain ⟨char, more, first, noCloser⟩ := starts
  rw [skipWithin, skipBlanks_append blank, skipBlanks_cons (by decide)]
  simp only
  split
  · rename_i none
    rw [none] at first
    cases first
  · rename_i closes
    rw [closes] at first
    exact absurd (List.cons.inj first).1.symm noCloser
  · exact skipWithin_skipBlanks fuel (.array :: frames) items

theorem skipWithin_emptyArray {inner : List Char} (blank : Blank blanks)
    (blankInner : Blank inner) :
    skipWithin (fuel + 1) frames (blanks ++ '[' :: (inner ++ ']' :: rest)) =
      goOn fuel frames rest := by
  rw [skipWithin, skipBlanks_append blank, skipBlanks_cons (by decide)]
  simp only [skipBlanks_append blankInner, skipBlanks_cons (show isBlank ']' = false by decide)]
  rfl

theorem skipWithin_object {members value : List Char} (blank : Blank blanks)
    (key : skipKey members = .ok value) :
    skipWithin (fuel + 1) frames (blanks ++ '\x7b' :: members) =
      skipWithin fuel (.object :: frames) value := by
  rw [← skipKey_skipBlanks] at key
  rw [skipWithin, skipBlanks_append blank, skipBlanks_cons (by decide)]
  simp only
  split
  · rename_i none
    rw [none] at key
    cases key
  · rename_i closes
    rw [closes] at key
    cases key
  · rw [key]

theorem skipWithin_emptyObject {inner : List Char} (blank : Blank blanks)
    (blankInner : Blank inner) :
    skipWithin (fuel + 1) frames (blanks ++ '\x7b' :: (inner ++ '\x7d' :: rest)) =
      goOn fuel frames rest := by
  rw [skipWithin, skipBlanks_append blank, skipBlanks_cons (by decide)]
  simp only [skipBlanks_append blankInner, skipBlanks_cons (show isBlank '\x7d' = false by decide)]
  rfl

end

/-- The text takes this many rounds as the given part of a document. Items and members are
passed together with the bracket behind them. -/
def Passed : Part → List Char → Nat → Prop
  | .value, text, rounds => ∀ (fuel : Nat) (frames : List Frame) ⦃blanks rest : List Char⦄,
      Blank blanks → Delimited rest →
        skipWithin (fuel + rounds) frames (blanks ++ (text ++ rest)) = goOn fuel frames rest
  | .items, text, rounds => ∀ (fuel : Nat) (frames : List Frame) (rest : List Char),
      skipWithin (fuel + rounds) (.array :: frames) (text ++ ']' :: rest) = goOn fuel frames rest
  | .members, text, rounds => ∀ (fuel : Nat) (frames : List Frame) (rest : List Char),
      ∃ value, skipKey (text ++ '\x7d' :: rest) = .ok value ∧
        skipWithin (fuel + rounds) (.object :: frames) value = goOn fuel frames rest

section

variable {text padded name paddedName others : List Char} {rounds roundsLater : Nat}

theorem skipScalar_digit (digit : startsWithDigit text = true) :
    skipScalar text = skipNumber text := by
  rw [skipScalar.eq_def]
  split
  case h_7 => rw [if_pos digit]
  all_goals cases digit

theorem skipScalar_number (formed : FormedNumber text) {rest : List Char}
    (delimited : Delimited rest) : skipScalar (text ++ rest) = .ok rest := by
  cases formed with
  | @parts sign whole fraction exponent signed isWhole isFraction isExponent =>
      have passed := skipNumber_formed isWhole isFraction isExponent delimited
      simp only [List.append_assoc]
      rcases signed with rfl | rfl
      · rw [List.nil_append, skipScalar_digit (startsWithDigit_append isWhole.1 _), passed]
      · exact passed

theorem skipScalar_string (formed : FormedString text) (rest : List Char) :
    skipScalar (text ++ rest) = .ok rest := by
  cases formed with
  | @quotes body chars =>
      rw [List.cons_append, List.append_assoc, List.singleton_append, skipScalar]
      apply skipString_formed chars
      rw [List.length_append]
      omega

theorem number_starts (formed : FormedNumber text) :
    ∃ char more, text = char :: more ∧ isBlank char = false ∧ char ≠ '[' ∧ char ≠ '\x7b' ∧
      char ≠ ']' := by
  cases formed with
  | @parts sign whole fraction exponent signed isWhole =>
      rcases signed with rfl | rfl
      · obtain ⟨char, more, rfl⟩ := List.exists_cons_of_ne_nil isWhole.1.1
        have digit := isWhole.1.2 char List.mem_cons_self
        obtain ⟨solid, noCloser, -⟩ := digit_starts digit
        exact ⟨char, _, rfl, solid, ne_of_digit digit rfl, ne_of_digit digit rfl, noCloser⟩
      · exact ⟨'-', _, rfl, by decide⟩

/-- A value starts with a character of its own. -/
theorem formed_starts (formed : Formed .value text) :
    ∃ char more, text = char :: more ∧ isBlank char = false ∧ char ≠ ']' := by
  cases formed with
  | null => exact ⟨_, _, rfl, by decide⟩
  | bool value => cases value <;> exact ⟨_, _, rfl, by decide⟩
  | number formed =>
      obtain ⟨char, more, same, solid, -, -, noCloser⟩ := number_starts formed
      exact ⟨char, more, same, solid, noCloser⟩
  | string formed =>
      cases formed
      exact ⟨_, _, rfl, by decide⟩
  | emptyArray => exact ⟨_, _, rfl, by decide⟩
  | array => exact ⟨_, _, rfl, by decide⟩
  | emptyObject => exact ⟨_, _, rfl, by decide⟩
  | object => exact ⟨_, _, rfl, by decide⟩

theorem items_start (formed : Formed .items text) (rest : List Char) :
    ∃ char more, skipBlanks (text ++ rest) = char :: more ∧ char ≠ ']' := by
  cases formed with
  | lastItem value around =>
      obtain ⟨char, more, rfl, solid, noCloser⟩ := formed_starts value
      obtain ⟨blankBefore, -⟩ := around
      rw [List.append_assoc, skipBlanks_append blankBefore]
      exact ⟨char, _, skipBlanks_cons solid _, noCloser⟩
  | nextItem value around =>
      obtain ⟨char, more, rfl, solid, noCloser⟩ := formed_starts value
      obtain ⟨blankBefore, -⟩ := around
      rw [List.append_assoc, List.append_assoc, skipBlanks_append blankBefore]
      exact ⟨char, _, skipBlanks_cons solid _, noCloser⟩

theorem passed_scalar {char : Char} {more : List Char} (starts : text = char :: more)
    (solid : isBlank char = false) (noArray : char ≠ '[') (noObject : char ≠ '\x7b')
    (passed : ∀ ⦃rest⦄, Delimited rest → skipScalar (text ++ rest) = .ok rest) :
    Passed .value text 1 := by
  intro fuel frames blanks rest blank delimited
  subst starts
  exact skipWithin_scalar blank solid noArray noObject (passed delimited)

theorem passed_array (starts : ∀ rest, ∃ char more, skipBlanks (text ++ rest) = char :: more ∧
      char ≠ ']') (passed : Passed .items text rounds) :
    Passed .value ('[' :: (text ++ [']'])) (rounds + 1) := by
  intro fuel frames blanks rest blank _
  rw [← Nat.add_assoc, List.cons_append, List.append_assoc, List.singleton_append,
    skipWithin_array blank (starts _)]
  exact passed fuel frames rest

theorem passed_object (passed : Passed .members text rounds) :
    Passed .value ('\x7b' :: (text ++ ['\x7d'])) (rounds + 1) := by
  intro fuel frames blanks rest blank _
  obtain ⟨value, key, onward⟩ := passed fuel frames rest
  rw [← Nat.add_assoc, List.cons_append, List.append_assoc, List.singleton_append,
    skipWithin_object blank key, onward]

/-- Inside a frame, the blanks around a value are passed with it. -/
theorem passed_padded (around : Around text padded) (passed : Passed .value text rounds)
    (fuel : Nat) (frame : Frame) (frames : List Frame) {char : Char}
    (ends : char ∈ [',', ']', '\x7d']) (rest : List Char) :
    skipWithin (fuel + rounds) (frame :: frames) (padded ++ char :: rest) =
      goOn fuel (frame :: frames) (char :: rest) := by
  obtain ⟨blankBefore, blankAfter⟩ := around
  have delimited := delimited_blank blankAfter (delimited_cons ends rest)
  rw [List.append_assoc, List.append_assoc, passed fuel _ blankBefore delimited,
    goOn_blanks frame blankAfter]

theorem passed_lastItem (around : Around text padded) (passed : Passed .value text rounds) :
    Passed .items padded rounds := by
  intro fuel frames rest
  rw [passed_padded around passed fuel .array frames (by decide)]
  exact goOn_closer .array rest

theorem passed_nextItem (around : Around text padded) (passed : Passed .value text rounds)
    (passedLater : Passed .items others roundsLater) :
    Passed .items (padded ++ ',' :: others) (roundsLater + rounds) := by
  intro fuel frames rest
  rw [← Nat.add_assoc, List.append_assoc, List.cons_append,
    passed_padded around passed _ .array frames (by decide), goOn_comma_array]
  exact passedLater fuel frames rest

theorem passed_lastMember (named : FormedString name) (aroundName : Around name paddedName)
    (around : Around text padded) (passed : Passed .value text rounds) :
    Passed .members (paddedName ++ ':' :: padded) rounds := by
  intro fuel frames rest
  obtain ⟨blankName, blankColon⟩ := aroundName
  simp only [List.append_assoc, List.cons_append]
  refine ⟨_, skipKey_formed named blankName blankColon _, ?_⟩
  rw [passed_padded around passed fuel .object frames (by decide)]
  exact goOn_closer .object rest

theorem passed_nextMember (named : FormedString name) (aroundName : Around name paddedName)
    (around : Around text padded) (passed : Passed .value text rounds)
    (passedLater : Passed .members others roundsLater) :
    Passed .members (paddedName ++ ':' :: (padded ++ ',' :: others)) (roundsLater + rounds) := by
  intro fuel frames rest
  obtain ⟨blankName, blankColon⟩ := aroundName
  obtain ⟨value, key, onward⟩ := passedLater fuel frames rest
  simp only [List.append_assoc, List.cons_append]
  refine ⟨_, skipKey_formed named blankName blankColon _, ?_⟩
  rw [← Nat.add_assoc, passed_padded around passed _ .object frames (by decide),
    goOn_comma_object key, onward]

/-- Whatever is well formed is passed, in no more rounds than it has characters. -/
theorem exists_passed {part : Part} (formed : Formed part text) :
    ∃ rounds ≤ text.length, Passed part text rounds := by
  -- Each part leaves the frames as it found them, so the rounds of its own parts add up.
  induction formed with
  | null =>
      exact ⟨1, by decide, passed_scalar rfl (by decide) (by decide) (by decide) fun _ _ => rfl⟩
  | bool value =>
      cases value <;>
        exact ⟨1, by decide, passed_scalar rfl (by decide) (by decide) (by decide) fun _ _ => rfl⟩
  | number formed =>
      obtain ⟨char, more, same, solid, noArray, noObject, -⟩ := number_starts formed
      refine ⟨1, by simp [same], passed_scalar same solid noArray noObject fun rest => ?_⟩
      exact skipScalar_number formed
  | string formed =>
      have passed (rest : List Char) (_ : Delimited rest) := skipScalar_string formed rest
      cases formed with
      | quotes chars =>
          exact ⟨1, by simp, passed_scalar rfl (by decide) (by decide) (by decide) passed⟩
  | emptyArray blankInner =>
      refine ⟨1, by simp, fun fuel frames blanks rest blank _ => ?_⟩
      rw [List.cons_append, List.append_assoc, List.singleton_append]
      exact skipWithin_emptyArray blank blankInner
  | array items ih =>
      obtain ⟨rounds, few, passed⟩ := ih
      refine ⟨rounds + 1, ?_, passed_array (items_start items) passed⟩
      simp only [List.length_cons, List.length_append]
      omega
  | emptyObject blankInner =>
      refine ⟨1, by simp, fun fuel frames blanks rest blank _ => ?_⟩
      rw [List.cons_append, List.append_assoc, List.singleton_append]
      exact skipWithin_emptyObject blank blankInner
  | object _ ih =>
      obtain ⟨rounds, few, passed⟩ := ih
      refine ⟨rounds + 1, ?_, passed_object passed⟩
      simp only [List.length_cons, List.length_append]
      omega
  | lastItem _ around ih =>
      obtain ⟨rounds, few, passed⟩ := ih
      refine ⟨rounds, ?_, passed_lastItem around passed⟩
      obtain ⟨-, -⟩ := around
      simp only [List.length_append]
      omega
  | nextItem _ around _ ih ihLater =>
      obtain ⟨rounds, few, passed⟩ := ih
      obtain ⟨roundsLater, fewLater, passedLater⟩ := ihLater
      refine ⟨roundsLater + rounds, ?_, passed_nextItem around passed passedLater⟩
      obtain ⟨-, -⟩ := around
      simp only [List.length_append, List.length_cons]
      omega
  | lastMember named aroundName _ around ih =>
      obtain ⟨rounds, few, passed⟩ := ih
      refine ⟨rounds, ?_, passed_lastMember named aroundName around passed⟩
      obtain ⟨-, -⟩ := around
      simp only [List.length_append, List.length_cons]
      omega
  | nextMember named aroundName _ around _ ih ihLater =>
      obtain ⟨rounds, few, passed⟩ := ih
      obtain ⟨roundsLater, fewLater, passedLater⟩ := ihLater
      refine ⟨roundsLater + rounds, ?_,
        passed_nextMember named aroundName around passed passedLater⟩
      obtain ⟨-, -⟩ := around
      simp only [List.length_append, List.length_cons]
      omega

/-- A value of any kind is passed over, and what stands behind it is left. -/
theorem skipValue_formed {blanks rest : List Char} (blank : Blank blanks)
    (formed : Formed .value text) (delimited : Delimited rest) :
    skipValue (blanks ++ (text ++ rest)) = .ok rest := by
  obtain ⟨rounds, few, passed⟩ := exists_passed formed
  have enough : rounds ≤ (blanks ++ (text ++ rest)).length + 1 := by
    simp only [List.length_append]
    omega
  obtain ⟨fuel, same⟩ := Nat.exists_eq_add_of_le' enough
  rw [skipValue, same, passed fuel [] blank delimited]
  rfl

end

end Read

end SourceComments.Json
