import Intcode.Circuit.Chain
import Intcode.Relay

/-!
# Rings

A ring is a chain whose outlet is relayed back into the inbox of its first stage. The relay is
stopped when the first stage terminates. The result is the last value that came out of the chain,
whether it is still on the outlet or was relayed before.
-/

namespace Intcode

/-- Stages in a row, the wire behind the last one and the relay from there to the first. -/
structure Ring where
  stages : List Stage
  outlet : Wire
  relay : Relay Passing

namespace Ring

/-- A ring at its start. The first stage has a listener, which raises the relay's stop signal. -/
def load (p : Program) (phases : List Word) (signal : Word) (debug : Bool) : Ring :=
  let relay : Relay Passing := { id := "feedback", device := {} }
  let stages :=
    match Stage.loadAll p debug phases with
    | [] => []
    | ⟨cpu, inbox⟩ :: rest => ⟨cpu.addListener (), (inbox.push signal).2⟩ :: rest
  { stages, outlet := {}, relay := relay.start.2 }

def actStage (r : Ring) (i : Nat) : Ring × Bool :=
  match Stage.actAt i r.stages r.outlet with
  | (event, stages, outlet) =>
    let relay := match event with | .notified () => r.relay.stop | _ => r.relay
    ({ stages, outlet, relay }, event.isMove)

def actRelay (r : Ring) : Ring × Bool :=
  match r.stages with
  | [] => (r, false)
  | ⟨cpu, inbox⟩ :: rest =>
    match r.relay.act r.outlet inbox with
    | ⟨relay, outlet, inbox, event⟩ =>
      ({ stages := ⟨cpu, inbox⟩ :: rest, outlet, relay }, event.isMove)

instance : System Ring where
  units r := r.stages.length + 1
  act r i := if i < r.stages.length then r.actStage i else r.actRelay
  ended r := (Stage.outcomes? r.stages).isSome && r.relay.outcome?.isSome

/-- The last value that came out of the chain, or the fault to report. -/
def result (r : Ring) : Except Failure (Option Word) :=
  match Stage.outcomes? r.stages, r.relay.outcome? with
  | some outcomes, some relayed =>
    match faultOf outcomes, relayed with
    | some f, _ => .error (.fault f)
    | none, .error f => .error (.fault f)
    | none, .ok () => .ok (r.outlet.toList.getLast?.or r.relay.device.last)
  | _, _ => .error .unfinished

/-- Runs a ring with at most `fuel` acts. A ring without stages has no signal. -/
def run (fuel : Nat) (p : Program) (phases : List Word) (signal : Word) (debug : Bool) :
    Except Failure (Option Word) × Traces :=
  if phases.isEmpty then (.ok none, [])
  else
    let r := settle fuel (load p phases signal debug)
    (r.result, Stage.traces r.stages)

end Ring

end Intcode
