import PioKit.Fault

/-!
# Numerals

The numerals of word files and the integer literals of a program text. Both are made of digits in a
base up to 36, read in either case and written in upper case, and valued from the left: each further
digit multiplies what stands before it by the base.

The numerals of word files are unsigned and have a bound. They are read from the left and the first
problem is the one reported: at one character, "not a digit" is decided before "too large".

A literal has a sign, a base mark and digits. Its magnitude is bounded by the largest signed 64-bit
number whatever the sign, so the least such number has no literal.
-/

namespace PioKit

namespace Numeral

/-! ## Digits -/

/-- The value of a letter or digit as a digit of some base. -/
def digitValue? (c : Char) : Option Nat :=
  if '0' ≤ c ∧ c ≤ '9' then some (c.toNat - '0'.toNat)
  else if 'a' ≤ c ∧ c ≤ 'z' then some (c.toNat - 'a'.toNat + 10)
  else if 'A' ≤ c ∧ c ≤ 'Z' then some (c.toNat - 'A'.toNat + 10)
  else none

/-- The value of a character as a digit of the given base. -/
def digit? (base : Nat) (c : Char) : Option Nat :=
  (digitValue? c).filter (· < base)

/-- The value of a list of digits, the leading one first; `none` if one of them is no digit of the
base. The empty list has value 0. -/
def ofDigits? (base : Nat) (cs : List Char) : Option Nat :=
  cs.foldlM (fun value c => (digit? base c).map (value * base + ·)) 0

/-- The upper-case hexadecimal numeral of `n`, filled up with leading zeros to `width` digits. A
value that needs more digits gets them. -/
def hex (width n : Nat) : List Char :=
  ((Nat.toDigits 16 n).map Char.toUpper).leftpad width '0'

/-! ## Unsigned numerals with a bound -/

/-- Why a text is not an unsigned numeral below the bound. -/
inductive Fault where
  /-- There is no text at all. -/
  | empty
  /-- A character is not a digit of the base, or a sign stands alone. -/
  | invalidDigit
  /-- The digits read so far exceed the bound. -/
  | tooLarge
  deriving DecidableEq, Repr

/-- The wording of a fault. -/
def Fault.message : Fault → String
  | .empty => "cannot parse integer from empty string"
  | .invalidDigit => "invalid digit found in string"
  | .tooLarge => "number too large to fit in target type"

/-- Appends one digit to a value that must stay at or below `limit`. -/
def appendDigit (base limit value : Nat) (c : Char) : Except Fault Nat :=
  match digit? base c with
  | none => .error .invalidDigit
  | some d => if value * base + d ≤ limit then .ok (value * base + d) else .error .tooLarge

/-- The value of an unsigned numeral that is at most `limit`. One plus sign may stand before the
digits; a minus is no digit. -/
def readUnsigned (base limit : Nat) (cs : List Char) : Except Fault Nat :=
  match cs with
  | [] => .error .empty
  | ['+'] => .error .invalidDigit
  | '+' :: digits => digits.foldlM (appendDigit base limit) 0
  | digits => digits.foldlM (appendDigit base limit) 0

end Numeral

/-! ## Integer literals -/

namespace Literal

/-- The largest magnitude a literal may have. -/
def maxMagnitude : Nat := 0x7FFFFFFFFFFFFFFF

/-- The value of one or more digits of the given base, if it is not above `maxMagnitude`. -/
def magnitudeIn? (base : Nat) (digits : List Char) : Option Nat :=
  if digits.isEmpty then none
  else (Numeral.ofDigits? base digits).filter (· ≤ maxMagnitude)

/-- The value of an unsigned literal: hexadecimal after `0x`, binary after `0b`, else decimal. -/
def magnitude? : List Char → Option Nat
  | '0' :: 'x' :: digits => magnitudeIn? 16 digits
  | '0' :: 'X' :: digits => magnitudeIn? 16 digits
  | '0' :: 'b' :: digits => magnitudeIn? 2 digits
  | '0' :: 'B' :: digits => magnitudeIn? 2 digits
  | digits => magnitudeIn? 10 digits

/-- The value of an integer literal: at most one minus, then an unsigned literal. -/
def parse? (text : String) : Option Int :=
  match text.toList with
  | '-' :: body => (magnitude? body).map fun n => -(n : Int)
  | body => (magnitude? body).map fun n => (n : Int)

/-- The value of an integer literal, or the fault of a text that is none. -/
def read (text : String) : Except Fault Int :=
  match parse? text with
  | some value => .ok value
  | none => .error (.invalidNumber text)

end Literal

end PioKit
