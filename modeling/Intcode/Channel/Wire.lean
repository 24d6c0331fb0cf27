import Intcode.Channel.Basic
import Intcode.Channel.Fifo
import Intcode.Warning

/-!
# Wires

A queue-backed channel. A take from an empty wire waits for a value while the wire is open. A
closed wire accepts nothing; what is still queued can be taken, and after that a use fails.
-/

namespace Intcode

/-- The values that are queued, and whether more are accepted. -/
structure Wire where
  queue : Fifo Word := {}
  closed : Bool := false
  deriving Repr

namespace Wire

def ofList (ws : List Word) : Wire := { queue := .ofList ws }

/-- The values on the wire, the next one first. -/
def toList (w : Wire) : List Word := w.queue.toList

def drain (w : Wire) : List Word × Wire := (w.toList, { w with queue := {} })

def length (w : Wire) : Nat := w.queue.length

def take (w : Wire) : Except Stop Word × Wire :=
  match w.queue.pop? with
  | some (v, queue) => (.ok v, { w with queue })
  | none => (.error (if w.closed then .fault .notConnected else .blocked), w)

def put (w : Wire) (v : Word) : Except Stop Unit × Wire :=
  if w.closed then (.error (.fault .notConnected), w)
  else (.ok (), { w with queue := w.queue.push v })

def poll (w : Wire) : Except Stop (Option Word) × Wire :=
  match w.queue.pop? with
  | some (v, queue) => (.ok (some v), { w with queue })
  | none => (if w.closed then .error (.fault .notConnected) else .ok none, w)

def close (w : Wire) : Wire := { w with closed := true }

/-- Puts a value where a refusal is no failure but only drops it. -/
def push (w : Wire) (v : Word) : List Warning × Wire :=
  match w.put v with
  | (.ok (), w) => ([], w)
  | (.error _, w) => ([.droppedValue v], w)

instance : Channel Wire where
  take := take
  put := put
  poll := poll
  pending := length
  close := close

end Wire

end Intcode
