import Intcode.Word

/-!
# Faults

The conditions that end a run. None is retried by the interpreter itself: the first fault is the
outcome of the run. A fault carries what its message shows and nothing else.
-/

namespace Intcode

inductive Fault where
  /-- The low two digits of an instruction word name no operation. -/
  | unknownOpcode (opcode ip : Word)
  /-- Immediate mode on a write target, or a mode digit other than 0, 1 and 2. -/
  | invalidMode (digit : Int) (ip : Word)
  /-- Input or output on an absent or closed channel. -/
  | notConnected
  | negativeAddress (address : Word)
  /-- A list-backed input ran out of values. -/
  | inputExhausted
  | overflow (ip : Word)
  | processorCrashed (id : String)
  | relayCrashed (id : String)
  deriving DecidableEq, Repr

namespace Fault

def message : Fault → String
  | unknownOpcode opcode ip => s!"unknown opcode {opcode.text} at ip {ip.text}"
  | invalidMode digit ip => s!"invalid addressing mode {digit} at ip {ip.text}"
  | notConnected => "channel not connected"
  | negativeAddress address => s!"negative address {address.text}"
  | inputExhausted => "input exhausted"
  | overflow ip => s!"arithmetic overflow at ip {ip.text}"
  | processorCrashed id => s!"processor {id} panicked"
  | relayCrashed id => s!"relay {id} panicked"

end Fault

/-- Why a run that was given a bound has no result. -/
inductive Failure where
  | fault (f : Fault)
  /-- The run did not end within its bound, or waits for input that nobody will send. -/
  | unfinished
  deriving DecidableEq, Repr

end Intcode
