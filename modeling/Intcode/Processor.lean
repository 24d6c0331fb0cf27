import Intcode.Machine.Run
import Intcode.Warning

/-!
# Processors

A processor is a machine that runs by itself beside other units, against an input and an output
that it shares with them. It acts in atomic steps. When its run is over, normally or not, it closes
its output, takes its final status and then notifies its listeners, each once and in the order in
which they were added. A crash, which a broken channel or a halt at the last address brings about,
skips the closing.
-/

namespace Intcode

abbrev Outcome := Except Fault HaltState

namespace Processor

/-- What others see of a processor. -/
inductive Status where
  | ready
  | running
  | halted
  | failed
  deriving DecidableEq, Repr

def Status.text : Status → String
  | ready => "ready"
  | running => "running"
  | halted => "halted"
  | failed => "failed"

def Status.name : Status → String
  | ready => "Ready"
  | running => "Running"
  | halted => "Halted"
  | failed => "Failed"

def Status.isTerminated : Status → Bool
  | ready | running => false
  | halted | failed => true

def Status.ofOutcome : Outcome → Status
  | .ok _ => halted
  | .error _ => failed

inductive Phase (ν : Type) where
  | ready
  | running
  /-- The run is over and the output is still to be closed. -/
  | closing (o : Outcome)
  /-- The status is still to be set. -/
  | reporting (o : Outcome)
  /-- The termination is still to be announced. -/
  | ending (o : Outcome)
  /-- The termination is announced and these listeners are still to be notified. -/
  | notifying (o : Outcome) (waiting : List ν)
  | ended (o : Outcome)

end Processor

/-- A processor whose listeners have names in `ν`. -/
structure Processor (ν : Type) where
  id : String
  machine : Machine
  trace : Array Record := #[]
  phase : Processor.Phase ν := .ready
  /-- The listeners that were added before the termination was announced. -/
  listeners : List ν := []
  /-- The listeners that have been notified, in order. -/
  fired : List ν := []
  /-- The outcome that a join has returned. -/
  joined : Option Outcome := none

namespace Processor

variable {ν ι ω : Type}

def load (id : String) (p : Program) (debug : Bool) : Processor ν :=
  { id, machine := Machine.load p id debug }

def status (p : Processor ν) : Status :=
  match p.phase with
  | .ready => .ready
  | .running | .closing _ | .reporting _ => .running
  | .ending o | .notifying o _ | .ended o => .ofOutcome o

def outcome? (p : Processor ν) : Option Outcome :=
  match p.phase with
  | .ended o => some o
  | _ => none

/-- Lets the processor run. This can be done once. -/
def start (p : Processor ν) : List Warning × Processor ν :=
  match p.phase with
  | .ready => ([], { p with phase := .running })
  | _ => ([.processorStarted p.id], p)

/-- Adds a listener. If the termination has been announced, it is notified at once. -/
def addListener (p : Processor ν) (l : ν) : Processor ν :=
  match p.phase with
  | .notifying .. | .ended _ => { p with fired := p.fired ++ [l] }
  | _ => { p with listeners := p.listeners ++ [l] }

inductive Event (ν : Type) where
  /-- Nothing: there is nothing to do, or nothing to take. -/
  | idle
  | moved
  /-- A value was put on the output. -/
  | sent (value : Word)
  /-- A listener was notified. -/
  | notified (l : ν)
  deriving DecidableEq, Repr

def Event.isMove : Event ν → Bool
  | idle => false
  | _ => true

structure Acted (ν ι ω : Type) where
  processor : Processor ν
  input : ι
  output : ω
  event : Event ν

def phaseAfter (id : String) (m : Machine) : Except Stop Progress → Phase ν
  | .ok .running => .running
  | .ok .halted => .closing (.ok m.haltState)
  | .error (.fault f) => .closing (.error f)
  | .error .blocked => .running
  | .error .crashed => .reporting (.error (.processorCrashed id))

def eventOf : Except Stop Progress → Option Traffic → Event ν
  | .error .blocked, _ => .idle
  | _, some (.sent v) => .sent v
  | _, _ => .moved

/-- One atomic act. -/
def act [Channel ι] [Channel ω] (p : Processor ν) (input : ι) (output : ω) : Acted ν ι ω :=
  match p with
  | ⟨id, machine, trace, phase, listeners, fired, joined⟩ =>
    match phase with
    | .ready | .ended _ =>
      ⟨⟨id, machine, trace, phase, listeners, fired, joined⟩, input, output, .idle⟩
    | .running =>
      match Rig.step ⟨machine, input, output, trace⟩ with
      | ⟨result, ⟨machine, input, output, trace⟩, traffic⟩ =>
        let phase := phaseAfter id machine result
        ⟨⟨id, machine, trace, phase, listeners, fired, joined⟩, input, output,
          eventOf result traffic⟩
    | .closing o =>
      ⟨⟨id, machine, trace, .reporting o, listeners, fired, joined⟩, input,
        Channel.close output, .moved⟩
    | .reporting o =>
      ⟨⟨id, machine, trace, .ending o, listeners, fired, joined⟩, input, output, .moved⟩
    | .ending o =>
      ⟨⟨id, machine, trace, .notifying o listeners, [], fired, joined⟩, input, output, .moved⟩
    | .notifying o (l :: waiting) =>
      ⟨⟨id, machine, trace, .notifying o waiting, listeners, fired ++ [l], joined⟩, input, output,
        .notified l⟩
    | .notifying o [] =>
      ⟨⟨id, machine, trace, .ended o, listeners, fired, joined⟩, input, output, .moved⟩

/-- Lets the processor act until it has nothing to do, at most `fuel` times. -/
def drive [Channel ι] [Channel ω] : Nat → Processor ν → ι → ω → Processor ν × ι × ω
  | 0, p, input, output => (p, input, output)
  | fuel + 1, p, input, output =>
    match p.act input output with
    | ⟨p, input, output, .idle⟩ => (p, input, output)
    | ⟨p, input, output, _⟩ => drive fuel p input output

/-- Asks for the outcome. The first request starts a processor that nobody has started, and there
is no answer before the processor has ended; all answers are the same. -/
def join (p : Processor ν) : Option Outcome × Processor ν :=
  match p.joined with
  | some o => (some o, p)
  | none =>
    match p.phase with
    | .ended o => (some o, { p with joined := some o })
    | .ready => (none, { p with phase := .running })
    | _ => (none, p)

def description (p : Processor ν) : String :=
  s!"Processor \x7b id: {Text.quoted p.id.toList}, status: {p.status.name} \x7d"

end Processor

end Intcode
