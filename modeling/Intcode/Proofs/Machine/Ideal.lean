import Intcode.Machine.Run
import Mathlib.Algebra.Group.Int.Defs

/-!
# The ideal machine

The instruction set by itself. The memory of an ideal machine is a function from addresses to
words: the program and then zeros. Its registers are integers, sums and products are exact, and
only then is it asked whether they fit a word. The digits of an instruction are those of its decimal
numeral, and what they name is written out here once more. How cells are stored and how instructions
are decoded plays no part.
-/

namespace Intcode

/-- A machine as the table of operations describes it. -/
structure Ideal where
  cells : Nat → Word
  ip : Nat := 0
  base : Int := 0
  halted : Bool := false

namespace Ideal

def load (p : Program) : Ideal := { cells := fun a => p.words.getD a 0 }

/-- The address of the instruction, as faults show it. -/
def place (s : Ideal) : Word := Int64.ofNat s.ip

/-- An exact result, which has to fit a word. -/
def exact (s : Ideal) (n : Int) : Except Fault Word :=
  if -0x8000000000000000 ≤ n ∧ n < 0x8000000000000000 then .ok (Int64.ofInt n)
  else .error (.overflow s.place)

/-- The cell at an address, which may not be negative. -/
def read (s : Ideal) (address : Word) : Except Fault Word :=
  if address.toInt < 0 then .error (.negativeAddress address) else .ok (s.cells address.toInt.toNat)

/-- The mode digit of a parameter, counted from 1, in the numeral of an instruction word. The two
digits to the right of all modes name the operation. -/
def modeDigit (w : Word) (k : Nat) : Int := w.toInt / 10 ^ (k + 1) % 10

def mode? : Int → Option Mode
  | 0 => some .position
  | 1 => some .immediate
  | 2 => some .relative
  | _ => none

def mode (s : Ideal) (w : Word) (k : Nat) : Except Fault Mode :=
  match mode? (modeDigit w k) with
  | some mode => .ok mode
  | none => .error (.invalidMode (modeDigit w k) s.place)

/-- The operations by their numbers, the first column of the table. -/
def operation? : Int → Option Opcode
  | 1 => some .add
  | 2 => some .mul
  | 3 => some .input
  | 4 => some .output
  | 5 => some .jumpIfTrue
  | 6 => some .jumpIfFalse
  | 7 => some .lessThan
  | 8 => some .equals
  | 9 => some .adjustBase
  | 99 => some .halt
  | _ => none

/-- How many words an instruction takes up, the last column of the table. -/
def span : Opcode → Nat
  | .add | .mul => 4
  | .input | .output => 2
  | .jumpIfTrue | .jumpIfFalse => 3
  | .lessThan | .equals => 4
  | .adjustBase => 2
  | .halt => 1

def operation (s : Ideal) (w : Word) : Except Fault Opcode :=
  if w.toInt < 0 then .error (.unknownOpcode w s.place)
  else
    match operation? (w.toInt % 100) with
    | some o => .ok o
    | none => .error (.unknownOpcode (Int64.ofInt (w.toInt % 100)) s.place)

def parameter (s : Ideal) (k : Nat) : Word := s.cells (s.ip + k)

def operand (s : Ideal) (w : Word) (k : Nat) : Except Fault Word := do
  match ← s.mode w k with
  | .position => s.read (s.parameter k)
  | .immediate => .ok (s.parameter k)
  | .relative => s.read (← s.exact (s.base + (s.parameter k).toInt))

def locate (address : Word) : Except Fault Nat :=
  if address.toInt < 0 then .error (.negativeAddress address) else .ok address.toInt.toNat

def target (s : Ideal) (w : Word) (k : Nat) : Except Fault Nat := do
  match ← s.mode w k with
  | .position => locate (s.parameter k)
  | .immediate => .error (.invalidMode (modeDigit w k) s.place)
  | .relative => locate (← s.exact (s.base + (s.parameter k).toInt))

inductive Effect where
  | write (target : Nat) (value : Word)
  | take (target : Nat)
  | emit (value : Word)
  | goto (destination : Word)
  | rebase (base : Word)
  | skip
  | stop
  deriving DecidableEq, Repr

/-- The effects of the operations, one row of the table for each. -/
def effect (s : Ideal) (w : Word) : Opcode → Except Fault Effect
  | .add => do
    let a ← s.operand w 1
    let b ← s.operand w 2
    let target ← s.target w 3
    return .write target (← s.exact (a.toInt + b.toInt))
  | .mul => do
    let a ← s.operand w 1
    let b ← s.operand w 2
    let target ← s.target w 3
    return .write target (← s.exact (a.toInt * b.toInt))
  | .input => return .take (← s.target w 1)
  | .output => return .emit (← s.operand w 1)
  | .jumpIfTrue => do
    let a ← s.operand w 1
    let b ← s.operand w 2
    return if a.toInt ≠ 0 then .goto b else .skip
  | .jumpIfFalse => do
    let a ← s.operand w 1
    let b ← s.operand w 2
    return if a.toInt = 0 then .goto b else .skip
  | .lessThan => do
    let a ← s.operand w 1
    let b ← s.operand w 2
    let target ← s.target w 3
    return .write target (if a.toInt < b.toInt then 1 else 0)
  | .equals => do
    let a ← s.operand w 1
    let b ← s.operand w 2
    let target ← s.target w 3
    return .write target (if a.toInt = b.toInt then 1 else 0)
  | .adjustBase => do
    let a ← s.operand w 1
    return .rebase (← s.exact (s.base + a.toInt))
  | .halt => return .stop

def word (s : Ideal) : Word := s.cells s.ip

def due (s : Ideal) : Except Fault (Opcode × Effect) := do
  let o ← s.operation s.word
  return (o, ← s.effect s.word o)

/-- There is an address behind the instruction. -/
def InRange (s : Ideal) : Prop :=
  ∀ o, s.operation s.word = .ok o → s.ip + span o < 0x8000000000000000

def put (s : Ideal) (target : Nat) (value : Word) : Ideal :=
  { s with cells := fun a => if a = target then value else s.cells a }

def past (s : Ideal) (o : Opcode) : Ideal := { s with ip := s.ip + span o }

/-- Carries out an effect. For an input, `received` is the value that was taken. -/
def carryOut (s : Ideal) (o : Opcode) (received : Word) : Effect → Except Stop Progress × Ideal
  | .write target value => (.ok .running, (s.put target value).past o)
  | .take target => (.ok .running, (s.put target received).past o)
  | .emit _ | .skip => (.ok .running, s.past o)
  | .goto destination =>
    if destination.toInt < 0 then (.error (.fault (.negativeAddress destination)), s)
    else (.ok .running, { s with ip := destination.toInt.toNat })
  | .rebase base => (.ok .running, { s.past o with base := base.toInt })
  | .stop => (.ok .halted, { s with ip := s.ip + 1, halted := true })

end Ideal

/-- What a step shows: how it ended and the use that it made of a channel. -/
abbrev Shown := Except Stop Progress × Option Traffic

structure Bench (ι ω : Type) where
  ideal : Ideal
  input : ι
  output : ω

namespace Bench

variable {ι ω : Type}

def finish (b : Bench ι ω) (o : Opcode) (e : Ideal.Effect) (received : Word)
    (traffic : Option Traffic) : Shown × Bench ι ω :=
  (((b.ideal.carryOut o received e).1, traffic),
    { b with ideal := (b.ideal.carryOut o received e).2 })

/-- Executes one instruction. A halted machine stays as it is. -/
def step [Channel ι] [Channel ω] (b : Bench ι ω) : Shown × Bench ι ω :=
  if b.ideal.halted then ((.ok .halted, none), b)
  else
    match b.ideal.due with
    | .error f => ((.error (.fault f), none), b)
    | .ok (o, .take target) =>
      match Channel.take b.input with
      | (.error s, input) => ((.error s, none), { b with input })
      | (.ok v, input) => finish { b with input } o (.take target) v (some (.received v))
    | .ok (o, .emit v) =>
      match Channel.put b.output v with
      | (.error s, output) => ((.error s, none), { b with output })
      | (.ok (), output) => finish { b with output } o (.emit v) 0 (some (.sent v))
    | .ok (o, e) => b.finish o e 0 none

end Bench

end Intcode
