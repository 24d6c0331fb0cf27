import Intcode.Channel.Basic
import Intcode.Channel.Fifo

/-!
# Tapes

A list-backed channel: values are taken from the front and appended at the back. A take from an
empty tape does not wait; it fails.
-/

namespace Intcode

structure Tape where
  queue : Fifo Word := {}
  deriving Repr

namespace Tape

def ofList (ws : List Word) : Tape := { queue := .ofList ws }

/-- The values on the tape, front first. -/
def toList (t : Tape) : List Word := t.queue.toList

def push (t : Tape) (v : Word) : Tape := { queue := t.queue.push v }

def drain (t : Tape) : List Word × Tape := (t.toList, {})

def length (t : Tape) : Nat := t.queue.length

def take (t : Tape) : Except Stop Word × Tape :=
  match t.queue.pop? with
  | some (v, queue) => (.ok v, { queue })
  | none => (.error (.fault .inputExhausted), t)

def poll (t : Tape) : Except Stop (Option Word) × Tape :=
  match t.queue.pop? with
  | some (v, queue) => (.ok (some v), { queue })
  | none => (.ok none, t)

instance : Channel Tape where
  take := take
  put t v := (.ok (), t.push v)
  poll := poll
  pending := length
  close t := t

end Tape

end Intcode
