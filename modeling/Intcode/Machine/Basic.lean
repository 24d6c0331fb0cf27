import Intcode.Memory
import Intcode.Program

/-!
# Machines

A machine is a private memory with two registers: the address of the next instruction and the base
of relative addresses. Both start at 0.
-/

namespace Intcode

structure Machine where
  memory : Memory
  ip : Word := 0
  base : Word := 0
  halted : Bool := false
  /-- Whether executed instructions are recorded. -/
  debug : Bool := false
  /-- The name under which they are recorded. -/
  label : String := "main"
  deriving DecidableEq

inductive Progress where
  | running
  | halted
  deriving DecidableEq, Repr

/-- The final state of a run that reached a halt: `ip` is one past the halt. -/
structure HaltState where
  memory : Memory
  ip : Word
  deriving DecidableEq

namespace Machine

def load (p : Program) (label : String := "main") (debug : Bool := false) : Machine :=
  { memory := .ofArray p.words, debug, label }

def haltState (m : Machine) : HaltState := { memory := m.memory, ip := m.ip }

end Machine

end Intcode
