import Intcode.Fault

/-!
# Instructions

An instruction word holds the code of its operation in its two low decimal digits. The digits above
them, from the lowest, are the addressing modes of the first, second and third parameter; a missing
digit is 0. A decoded instruction keeps all of these digits, also those that no parameter uses, so
that it determines its word.
-/

namespace Intcode

inductive Opcode where
  | add
  | mul
  | input
  | output
  | jumpIfTrue
  | jumpIfFalse
  | lessThan
  | equals
  | adjustBase
  | halt
  deriving DecidableEq, Repr

namespace Opcode

/-- The number that stands for an operation in the two low digits. -/
def code : Opcode → Nat
  | add => 1
  | mul => 2
  | input => 3
  | output => 4
  | jumpIfTrue => 5
  | jumpIfFalse => 6
  | lessThan => 7
  | equals => 8
  | adjustBase => 9
  | halt => 99

def ofCode? : Nat → Option Opcode
  | 1 => some add
  | 2 => some mul
  | 3 => some input
  | 4 => some output
  | 5 => some jumpIfTrue
  | 6 => some jumpIfFalse
  | 7 => some lessThan
  | 8 => some equals
  | 9 => some adjustBase
  | 99 => some halt
  | _ => none

/-- The number of words that an instruction spans, its first word included. -/
def width : Opcode → Nat
  | add | mul | lessThan | equals => 4
  | jumpIfTrue | jumpIfFalse => 3
  | input | output | adjustBase => 2
  | halt => 1

def arity (o : Opcode) : Nat := o.width - 1

def mnemonic : Opcode → String
  | add => "ADD"
  | mul => "MUL"
  | input => "IN"
  | output => "OUT"
  | jumpIfTrue => "JNZ"
  | jumpIfFalse => "JZ"
  | lessThan => "LT"
  | equals => "EQ"
  | adjustBase => "ARB"
  | halt => "HALT"

theorem ofCode?_eq_some_iff {n : Nat} {o : Opcode} : ofCode? n = some o ↔ n = o.code := by
  constructor
  · intro h
    unfold ofCode? at h
    split at h <;> cases h <;> rfl
  · rintro rfl
    cases o <;> rfl

theorem width_pos (o : Opcode) : 0 < o.width := by
  cases o <;> decide

end Opcode

inductive Mode where
  /-- The parameter is an address. -/
  | position
  /-- The parameter is the value itself; no write target has this mode. -/
  | immediate
  /-- The parameter is an offset from the relative base. -/
  | relative
  deriving DecidableEq, Repr

/-- Why a word, or one of its mode digits, cannot be decoded. -/
inductive DecodeError where
  | unknownOpcode (opcode : Word)
  | invalidMode (digit : Int)
  deriving DecidableEq, Repr

def DecodeError.at (ip : Word) : DecodeError → Fault
  | unknownOpcode opcode => .unknownOpcode opcode ip
  | invalidMode digit => .invalidMode digit ip

def Opcode.ofWord (w : Word) : Except DecodeError Opcode :=
  match w.toNat?.bind Opcode.ofCode? with
  | some opcode => .ok opcode
  | none => .error (.unknownOpcode w)

/-- The mode that a digit stands for. Any other number stands for none. -/
def Mode.ofDigit : Int → Except DecodeError Mode
  | 0 => .ok position
  | 1 => .ok immediate
  | 2 => .ok relative
  | digit => .error (.invalidMode digit)

/-- A decoded instruction word: its operation and the number that its mode digits form. -/
structure Instruction where
  opcode : Opcode
  modes : Nat
  deriving DecidableEq, Repr

namespace Instruction

/-- Reads a word. A negative word is no instruction as it stands, any other by its low digits. -/
def decode (w : Word) : Except DecodeError Instruction :=
  match w.toNat? with
  | none => .error (.unknownOpcode w)
  | some n =>
    match Opcode.ofWord (Int64.ofNat (n % 100)) with
    | .ok opcode => .ok { opcode, modes := n / 100 }
    | .error e => .error e

/-- The digit of a parameter in a number of mode digits. Parameters count from 1, and 0 is read
as 1. -/
def digitOf (modes : Nat) : Nat → Nat
  | 0 => modes % 10
  | 1 => modes % 10
  | param + 2 => digitOf (modes / 10) (param + 1)

def digit (i : Instruction) (param : Nat) : Nat := digitOf i.modes param

def mode (i : Instruction) (param : Nat) : Except DecodeError Mode := Mode.ofDigit (i.digit param)

/-- The word that decodes to the instruction, if it is in range. -/
def word? (i : Instruction) : Option Word := Word.ofInt? (i.opcode.code + 100 * i.modes)

example : (decode 1002).toOption = some ⟨.mul, 10⟩ := by decide
example : (decode 21003).toOption.map (·.digit 3) = some 2 := by decide
example : decode (-1) = .error (.unknownOpcode (-1)) := by rfl
example : decode 298 = .error (.unknownOpcode 98) := by rfl

end Instruction

end Intcode
