import Intcode.Channel.Joystick
import Intcode.Channel.Tape
import Intcode.Channel.Wire

/-!
# Endpoints

The kinds of endpoint that a unit can be plugged into, as one type. Beside the three channels there
is the missing connection, every use of which fails, and the broken one, every use of which crashes.
-/

namespace Intcode

inductive Endpoint where
  | tape (t : Tape)
  | wire (w : Wire)
  | joystick (j : Joystick)
  | unplugged
  | broken
  deriving Repr

namespace Endpoint

def take : Endpoint → Except Stop Word × Endpoint
  | tape t => let (r, t) := Channel.take t; (r, tape t)
  | wire w => let (r, w) := Channel.take w; (r, wire w)
  | joystick j => let (r, j) := Channel.take j; (r, joystick j)
  | unplugged => (.error (.fault .notConnected), unplugged)
  | broken => (.error .crashed, broken)

def put (p : Endpoint) (v : Word) : Except Stop Unit × Endpoint :=
  match p with
  | tape t => let (r, t) := Channel.put t v; (r, tape t)
  | wire w => let (r, w) := Channel.put w v; (r, wire w)
  | joystick j => let (r, j) := Channel.put j v; (r, joystick j)
  | unplugged => (.error (.fault .notConnected), unplugged)
  | broken => (.error .crashed, broken)

def poll : Endpoint → Except Stop (Option Word) × Endpoint
  | tape t => let (r, t) := Channel.poll t; (r, tape t)
  | wire w => let (r, w) := Channel.poll w; (r, wire w)
  | joystick j => let (r, j) := Channel.poll j; (r, joystick j)
  | unplugged => (.error (.fault .notConnected), unplugged)
  | broken => (.error .crashed, broken)

def pending : Endpoint → Nat
  | tape t => Channel.pending t
  | wire w => Channel.pending w
  | joystick j => Channel.pending j
  | unplugged | broken => 0

def close : Endpoint → Endpoint
  | tape t => tape (Channel.close t)
  | wire w => wire (Channel.close w)
  | joystick j => joystick (Channel.close j)
  | unplugged => unplugged
  | broken => broken

instance : Channel Endpoint where
  take := take
  put := put
  poll := poll
  pending := pending
  close := close

end Endpoint

end Intcode
