import Intcode.Word

/-!
# Decimal numerals

A numeral is an optional single sign and at least one ASCII digit. It is read from left to right,
so the flaw that is reported is the first one met; a numeral without a minus sign may be limited to
the unsigned 64-bit range, where a minus sign is no digit.
-/

namespace Intcode.Numeral

inductive Flaw where
  | empty
  | badDigit
  | tooLarge
  | tooSmall
  deriving DecidableEq, Repr

namespace Flaw

def message : Flaw → String
  | empty => "cannot parse integer from empty string"
  | badDigit => "invalid digit found in string"
  | tooLarge => "number too large to fit in target type"
  | tooSmall => "number too small to fit in target type"

end Flaw

def digit? (c : Char) : Option Nat :=
  if '0' ≤ c ∧ c ≤ '9' then some (c.toNat - '0'.toNat) else none

/-- Reads digits after a prefix of value `value`, which must not grow past `limit`. -/
def readDigits (limit : Nat) (excess : Flaw) : Nat → List Char → Except Flaw Nat
  | value, [] => .ok value
  | value, c :: rest =>
    match digit? c with
    | none => .error .badDigit
    | some d =>
      if limit < value * 10 + d then .error excess
      else readDigits limit excess (value * 10 + d) rest

/-- Reads at least one digit. -/
def readMagnitude (limit : Nat) (excess : Flaw) : List Char → Except Flaw Nat
  | [] => .error .badDigit
  | digits => readDigits limit excess 0 digits

def readSigned : List Char → Except Flaw Int
  | [] => .error .empty
  | '+' :: digits => (readMagnitude 0x7fffffffffffffff .tooLarge digits).map Int.ofNat
  | '-' :: digits => (readMagnitude 0x8000000000000000 .tooSmall digits).map fun n => -Int.ofNat n
  | digits => (readMagnitude 0x7fffffffffffffff .tooLarge digits).map Int.ofNat

def readUnsigned : List Char → Except Flaw Nat
  | [] => .error .empty
  | '+' :: digits => readMagnitude 0xffffffffffffffff .tooLarge digits
  | digits => readMagnitude 0xffffffffffffffff .tooLarge digits

def readWord (s : List Char) : Except Flaw Word := (readSigned s).map Int64.ofInt

example : readWord "-9223372036854775808".toList = .ok Int64.minValue := by rfl
example : readWord "9223372036854775808".toList = .error .tooLarge := by rfl
example : readWord "+".toList = .error .badDigit := by rfl
example : readUnsigned "-5".toList = .error .badDigit := by rfl

end Intcode.Numeral
