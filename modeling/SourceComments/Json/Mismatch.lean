import SourceComments.Json.Strings

/-! The fault of a value of the wrong kind.

A value that is broken itself is reported as broken. A number is broken also when
it is too large for a double. -/

namespace SourceComments.Json.Read

/-- The number with the 53 leading binary digits of `value`, ties to even. -/
def roundToDouble (value : Nat) : Nat :=
  let width := Nat.log2 value + 1
  if width ≤ 53 then value
  else
    let unit := Nat.pow 2 (width - 53)
    let quotient := value / unit
    let rest := value % unit
    let up := unit < 2 * rest ∨ (2 * rest = unit ∧ quotient % 2 = 1)
    (if up then quotient + 1 else quotient) * unit

/-- Whether a decimal is too large for a double: rounding the significand, the
power of ten and their product in turn goes past the largest one. -/
def outOfRange (significand : Nat) (exponent : Int) : Bool :=
  significand ≠ 0 && 0 ≤ exponent &&
    (308 < exponent ||
      Nat.pow 2 1024 - Nat.pow 2 970 ≤
        roundToDouble significand * roundToDouble (Nat.pow 10 exponent.toNat))

/-- Appends digits to a significand as long as it fits 64 bits; further digits
only count. -/
def growSignificand (significand : Nat) : List Char → Nat × List Char
  | [] => (significand, [])
  | char :: rest =>
      let grown := significand * 10 + (char.toNat - 48)
      if char.isDigit ∧ grown < 0x10000000000000000 then growSignificand grown rest
      else (significand, char :: rest)

/-- The fault of a complete number where another kind of value is wanted. -/
def sizeFault (significand : Nat) (exponent : Int) : Fault :=
  if outOfRange significand exponent then .malformed else .mismatched

/-- The fault of a number from its exponent on, the letter passed. -/
def exponentFault (significand : Nat) (exponent : Int) (text : List Char) : Fault :=
  let (negative, unsigned) := match text with
    | '+' :: rest => (false, rest)
    | '-' :: rest => (true, rest)
    | _ => (false, text)
  match unsigned with
  | [] => .truncated
  | char :: _ =>
      if char.isDigit then
        let size : Int := (unsigned.takeWhile Char.isDigit).foldl
          (fun value digit => value * 10 + (digit.toNat - 48)) 0
        sizeFault significand (if negative then exponent - size else exponent + size)
      else .malformed

/-- The fault of a number after all its digits. -/
def tailFault (significand : Nat) (exponent : Int) (text : List Char) : Fault :=
  match text with
  | 'e' :: rest => exponentFault significand exponent rest
  | 'E' :: rest => exponentFault significand exponent rest
  | _ => sizeFault significand exponent

/-- The fault of a number after the digits before its point. -/
def fractionFault (significand : Nat) (exponent : Int) (text : List Char) : Fault :=
  match text with
  | '.' :: rest =>
      match rest with
      | [] => .truncated
      | char :: _ =>
          if char.isDigit then
            let (grown, left) := growSignificand significand rest
            tailFault grown (exponent - (rest.length - left.length : Nat)) (skipDigits left)
          else .malformed
  | _ => tailFault significand exponent text

/-- The fault of a number where another kind of value is wanted, its sign passed. -/
def numberFault (text : List Char) : Fault :=
  match text with
  | [] => .truncated
  | '0' :: rest => if startsWithDigit rest then .malformed else fractionFault 0 0 rest
  | char :: _ =>
      if char.isDigit then
        let (significand, left) := growSignificand 0 text
        let after := skipDigits left
        fractionFault significand (left.length - after.length : Nat) after
      else .malformed

/-- The fault of a value where another kind is wanted: mismatched, unless the value
is broken itself. Arrays and objects are not looked into. -/
def unexpected (text : List Char) : Fault :=
  let ofResult {α : Type} : Except Fault α → Fault
    | .ok _ => .mismatched
    | .error fault => fault
  match text with
  | [] => .truncated
  | 'n' :: rest => ofResult (keyword ['u', 'l', 'l'] rest)
  | 't' :: rest => ofResult (keyword ['r', 'u', 'e'] rest)
  | 'f' :: rest => ofResult (keyword ['a', 'l', 's', 'e'] rest)
  | '"' :: rest => ofResult (stringBody rest)
  | '-' :: rest => numberFault rest
  | '[' :: _ => .mismatched
  | '\x7b' :: _ => .mismatched
  | _ => if startsWithDigit text then numberFault text else .malformed

end SourceComments.Json.Read
