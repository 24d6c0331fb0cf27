import Intcode.Channel.Basic
import Intcode.Instruction
import Intcode.Machine.Basic

/-!
# Plans

Executing an instruction has two halves. The first reads the instruction and resolves its
parameters; it changes nothing and settles everything that can go wrong before the channels are
used. Its result is a plan. The second half carries the plan out; all that can stop it is the end of
the address space.
-/

namespace Intcode

/-- What an instruction does, its parameters resolved. -/
inductive Action where
  /-- Stores a value that was computed from two operands. -/
  | store (a b : Word) (target : Nat) (value : Word)
  | input (target : Nat)
  | output (value : Word)
  | jump (condition destination : Word) (taken : Bool)
  /-- Moves the relative base by `delta` to `base`. -/
  | adjust (delta base : Word)
  | halt
  deriving DecidableEq, Repr

structure Plan where
  opcode : Opcode
  action : Action
  deriving DecidableEq, Repr

namespace Machine

/-- The address of the word that stands `offset` places after the instruction. -/
def paramAddress (m : Machine) (offset : Nat) : Except Fault Word :=
  match Word.add? m.ip (Int64.ofNat offset) with
  | some a => .ok a
  | none => .error (.overflow m.ip)

def raw (m : Machine) (param : Nat) : Except Fault Word := do
  m.memory.read (← m.paramAddress param)

def relative (m : Machine) (offset : Word) : Except Fault Word :=
  match Word.add? m.base offset with
  | some a => .ok a
  | none => .error (.overflow m.ip)

def mode (m : Machine) (i : Instruction) (param : Nat) : Except Fault Mode :=
  (i.mode param).mapError (·.at m.ip)

def operand (m : Machine) (i : Instruction) (param : Nat) : Except Fault Word := do
  let raw ← m.raw param
  match ← m.mode i param with
  | .position => m.memory.read raw
  | .immediate => return raw
  | .relative => m.memory.read (← m.relative raw)

def target (m : Machine) (i : Instruction) (param : Nat) : Except Fault Nat := do
  let raw ← m.raw param
  let address ←
    match ← m.mode i param with
    | .position => pure raw
    | .relative => m.relative raw
    | .immediate => throw (.invalidMode (i.digit param) m.ip)
  match address.toNat? with
  | some a => return a
  | none => throw (.negativeAddress address)

/-- Stores what `f` computes from two operands, which has to be a word. -/
def storeOf (m : Machine) (i : Instruction) (f : Word → Word → Option Word) :
    Except Fault Action := do
  let a ← m.operand i 1
  let b ← m.operand i 2
  let target ← m.target i 3
  match f a b with
  | some value => return .store a b target value
  | none => throw (.overflow m.ip)

/-- Jumps if the condition is not zero, or if it is zero. -/
def jumpIf (m : Machine) (i : Instruction) (nonzero : Bool) : Except Fault Action := do
  let condition ← m.operand i 1
  let destination ← m.operand i 2
  return .jump condition destination ((condition != 0) == nonzero)

def action (m : Machine) (i : Instruction) : Except Fault Action :=
  match i.opcode with
  | .add => m.storeOf i Word.add?
  | .mul => m.storeOf i Word.mul?
  | .lessThan => m.storeOf i fun a b => some (Word.ofBool (a < b))
  | .equals => m.storeOf i fun a b => some (Word.ofBool (a == b))
  | .input => return .input (← m.target i 1)
  | .output => return .output (← m.operand i 1)
  | .jumpIfTrue => m.jumpIf i true
  | .jumpIfFalse => m.jumpIf i false
  | .adjustBase => do
    let delta ← m.operand i 1
    match Word.add? m.base delta with
    | some base => return .adjust delta base
    | none => throw (.overflow m.ip)
  | .halt => return .halt

/-- Reads the instruction at the current address and resolves its parameters. -/
def plan (m : Machine) : Except Fault Plan := do
  let w ← m.memory.read m.ip
  let i ← (Instruction.decode w).mapError (·.at m.ip)
  return { opcode := i.opcode, action := ← m.action i }

def advance (m : Machine) (o : Opcode) : Except Stop Progress × Machine :=
  match m.paramAddress o.width with
  | .ok ip => (.ok .running, { m with ip })
  | .error e => (.error (.fault e), m)

/-- Ends the run one past the halt. A halt at the last address breaks the machine down. -/
def stopHere (m : Machine) : Except Stop Progress × Machine :=
  match Word.add? m.ip 1 with
  | some ip => (.ok .halted, { m with ip, halted := true })
  | none => (.error .crashed, { m with halted := true })

/-- Carries out a plan. For an input, `received` is the value that was taken. -/
def commit (m : Machine) (p : Plan) (received : Word) : Except Stop Progress × Machine :=
  match m with
  | ⟨memory, ip, base, halted, debug, label⟩ =>
    match p.action with
    | .store _ _ target value =>
      advance ⟨memory.set target value, ip, base, halted, debug, label⟩ p.opcode
    | .input target =>
      advance ⟨memory.set target received, ip, base, halted, debug, label⟩ p.opcode
    | .output _ => advance ⟨memory, ip, base, halted, debug, label⟩ p.opcode
    | .jump _ destination true =>
      if destination < 0 then
        (.error (.fault (.negativeAddress destination)), ⟨memory, ip, base, halted, debug, label⟩)
      else
        (.ok .running, ⟨memory, destination, base, halted, debug, label⟩)
    | .jump _ _ false => advance ⟨memory, ip, base, halted, debug, label⟩ p.opcode
    | .adjust _ base => advance ⟨memory, ip, base, halted, debug, label⟩ p.opcode
    | .halt => stopHere ⟨memory, ip, base, halted, debug, label⟩

end Machine

end Intcode
