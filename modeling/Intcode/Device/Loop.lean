import Intcode.Channel.Wire
import Intcode.Processor
import Intcode.Relay
import Intcode.Schedule

/-!
# Device loops

A processor talks to a device: a relay takes what the processor puts on a private line, tells it to
the device and puts the replies into the channel that the processor listens to. That channel need
not be one that blocks, so the two take turns. Everything that the processor puts on the line is
counted as emitted, everything that the device has handled as settled, and a read of the processor
waits while the device is behind and has not been let go.
-/

namespace Intcode

/-- A channel whose reads wait while it is shut. -/
structure Gate (ι : Type) where
  inner : ι
  shut : Bool

instance {ι : Type} [Channel ι] : Channel (Gate ι) where
  take g :=
    if g.shut then (.error .blocked, g)
    else match Channel.take g.inner with | (r, inner) => (r, { g with inner })
  put g v := match Channel.put g.inner v with | (r, inner) => (r, { g with inner })
  poll g :=
    if g.shut then (.error .blocked, g)
    else match Channel.poll g.inner with | (r, inner) => (r, { g with inner })
  pending g := Channel.pending g.inner
  close g := { g with inner := Channel.close g.inner }

/-- A processor, the relay with its device and the two channels between them. -/
structure Loop (ι τ : Type) where
  cpu : Processor Unit
  relay : Relay τ
  /-- What the processor listens to. -/
  input : ι
  /-- What the processor talks on. -/
  line : Wire := {}
  emitted : Nat := 0
  settled : Nat := 0
  /-- Whether the device has been let go, so that nothing will be settled any more. -/
  detached : Bool := false
  /-- Whether a value was put on the line and is still to be counted. -/
  uncounted : Bool := false
  /-- Whether a value was handled and is still to be counted. -/
  unsettled : Bool := false

namespace Loop

variable {ι τ : Type}

/-- The loop at its start. The processor's only listener raises the relay's stop signal. -/
def load (id : String) (p : Program) (input : ι) (device : τ) (debug : Bool) : Loop ι τ :=
  { cpu := (((Processor.load id p debug).addListener ()).start).2
    relay := ({ id := id ++ "-device", device : Relay τ }.start).2
    input }

def actCpu [Channel ι] (l : Loop ι τ) : Loop ι τ × Bool :=
  match l with
  | ⟨cpu, relay, input, line, emitted, settled, detached, uncounted, unsettled⟩ =>
    if uncounted then
      (⟨cpu, relay, input, line, emitted + 1, settled, detached, false, unsettled⟩, true)
    else
      let gate : Gate ι := { inner := input, shut := settled < emitted && !detached }
      match cpu.act gate line with
      | ⟨cpu, gate, line, event⟩ =>
        let relay := match event with | .notified () => relay.stop | _ => relay
        let uncounted := match event with | .sent _ => true | _ => false
        (⟨cpu, relay, gate.inner, line, emitted, settled, detached, uncounted, unsettled⟩,
          event.isMove)

def actRelay [Channel ι] [Device τ] (l : Loop ι τ) : Loop ι τ × Bool :=
  match l with
  | ⟨cpu, relay, input, line, emitted, settled, detached, uncounted, unsettled⟩ =>
    if unsettled then
      (⟨cpu, relay, input, line, emitted, settled + 1, detached, uncounted, false⟩, true)
    else
      match relay.act line input with
      | ⟨relay, line, input, event⟩ =>
        let unsettled := event == .handled
        let detached := detached || event == .departed
        (⟨cpu, relay, input, line, emitted, settled, detached, uncounted, unsettled⟩,
          event.isMove)

instance [Channel ι] [Device τ] : System (Loop ι τ) where
  units _ := 2
  act l i := if i = 0 then l.actCpu else l.actRelay
  ended l := l.cpu.outcome?.isSome && l.relay.outcome?.isSome

/-- The result of a loop that has ended: the processor's fault before the relay's. -/
def result (l : Loop ι τ) : Except Failure HaltState :=
  match l.cpu.outcome?, l.relay.outcome? with
  | some (.ok s), some (.ok ()) => .ok s
  | some (.error f), some _ => .error (.fault f)
  | some (.ok _), some (.error f) => .error (.fault f)
  | _, _ => .error .unfinished

def run [Channel ι] [Device τ] (fuel : Nat) (id : String) (p : Program) (input : ι) (device : τ)
    (debug : Bool) : Loop ι τ :=
  settle fuel (load id p input device debug)

end Loop

end Intcode
