import Intcode.Channel.Wire
import Intcode.Processor
import Intcode.Schedule

/-!
# Chains

Processors in a row run the same program. Each one's output is the inbox of the next, and the last
one puts its output on the outlet. Every stage receives its phase first; the first stage receives a
signal after it and then nothing more.
-/

namespace Intcode

structure Stage where
  cpu : Processor Unit
  inbox : Wire

namespace Stage

/-- The name of the stage at an index: a capital letter while there are any. -/
def label (index : Nat) : String :=
  if index < 26 then String.singleton (Char.ofNat ('A'.toNat + index)) else s!"stage-{index}"

/-- A stage that runs and has received its phase. -/
def load (p : Program) (debug : Bool) (index : Nat) (phase : Word) : Stage :=
  { cpu := (Processor.load (label index) p debug).start.2, inbox := .ofList [phase] }

def loadAll (p : Program) (debug : Bool) (phases : List Word) : List Stage :=
  phases.zipIdx.map fun e => load p debug e.2 e.1

def actAt : Nat → List Stage → Wire → Processor.Event Unit × List Stage × Wire
  | _, [], outlet => (.idle, [], outlet)
  | 0, [⟨cpu, inbox⟩], outlet =>
    match cpu.act inbox outlet with
    | ⟨cpu, inbox, outlet, event⟩ => (event, [⟨cpu, inbox⟩], outlet)
  | 0, ⟨cpu, inbox⟩ :: ⟨next, between⟩ :: rest, outlet =>
    match cpu.act inbox between with
    | ⟨cpu, inbox, between, event⟩ => (event, ⟨cpu, inbox⟩ :: ⟨next, between⟩ :: rest, outlet)
  | index + 1, s :: rest, outlet =>
    match actAt index rest outlet with
    | (event, rest, outlet) => (event, s :: rest, outlet)

def outcomes? (stages : List Stage) : Option (List Outcome) :=
  stages.mapM fun s => s.cpu.outcome?

def traces (stages : List Stage) : Traces := stages.map fun s => (s.cpu.id, s.cpu.trace)

end Stage

/-- The first fault that is not a lack of connection. -/
def firstCause : List Outcome → Option Fault
  | [] => none
  | .error f :: rest => if f = .notConnected then firstCause rest else some f
  | .ok _ :: rest => firstCause rest

/-- The fault to report for stages in a row. A stage that fails closes its output, and the stages
behind it then lack their connection; so that is reported only if nothing else went wrong. -/
def faultOf (outcomes : List Outcome) : Option Fault :=
  match firstCause outcomes with
  | some f => some f
  | none => if outcomes.any fun o => o.toOption.isNone then some .notConnected else none

/-- Stages in a row and the wire behind the last one. -/
structure Chain where
  stages : List Stage
  outlet : Wire

namespace Chain

/-- A chain at its start. Without stages the signal is on the outlet. -/
def load (p : Program) (phases : List Word) (signal : Word) (debug : Bool) : Chain :=
  match Stage.loadAll p debug phases with
  | [] => { stages := [], outlet := (Wire.ofList [signal]).close }
  | ⟨cpu, inbox⟩ :: rest =>
    { stages := ⟨cpu, (inbox.push signal).2.close⟩ :: rest, outlet := {} }

instance : System Chain where
  units c := c.stages.length
  act c i :=
    match Stage.actAt i c.stages c.outlet with
    | (event, stages, outlet) => ({ stages, outlet }, event.isMove)
  ended c := (Stage.outcomes? c.stages).isSome

/-- The last value that the chain emitted, or the fault to report. -/
def result (c : Chain) : Except Failure (Option Word) :=
  match Stage.outcomes? c.stages with
  | none => .error .unfinished
  | some outcomes =>
    match faultOf outcomes with
    | some f => .error (.fault f)
    | none => .ok c.outlet.toList.getLast?

def run (fuel : Nat) (p : Program) (phases : List Word) (signal : Word) (debug : Bool) :
    Except Failure (Option Word) × Traces :=
  let c := settle fuel (load p phases signal debug)
  (c.result, Stage.traces c.stages)

end Chain

end Intcode
