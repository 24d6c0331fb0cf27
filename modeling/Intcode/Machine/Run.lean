import Intcode.Channel.Tape
import Intcode.Machine.Record

/-!
# Runs

A rig is a machine with the channels that it takes its input from and puts its output on, and the
records of what it executed. A step executes one instruction; a run repeats steps until one of them
halts or does not go through.
-/

namespace Intcode

/-- A machine with its channels and records. -/
structure Rig (ι ω : Type) where
  machine : Machine
  input : ι
  output : ω
  trace : Array Record := #[]

/-- The use of a channel that a step made. -/
inductive Traffic where
  | received (value : Word)
  | sent (value : Word)
  deriving DecidableEq, Repr

structure Stepped (ι ω : Type) where
  result : Except Stop Progress
  rig : Rig ι ω
  traffic : Option Traffic := none

namespace Rig

variable {ι ω : Type}

def recorded (m : Machine) (p : Plan) (received : Word) (trace : Array Record) : Array Record :=
  if m.debug then trace.push { label := m.label, ip := m.ip, plan := p, received } else trace

/-- Carries out a plan whose channel has been used. -/
def finish (r : Rig ι ω) (p : Plan) (received : Word) (traffic : Option Traffic) :
    Stepped ι ω :=
  match r with
  | ⟨machine, input, output, trace⟩ =>
    match machine.commit p received with
    | (result, machine) =>
      { result, rig := ⟨machine, input, output, trace⟩, traffic }

/-- Executes one instruction. A halted machine stays as it is. -/
def step [Channel ι] [Channel ω] (r : Rig ι ω) : Stepped ι ω :=
  match r with
  | ⟨machine, input, output, trace⟩ =>
    if machine.halted then
      { result := .ok .halted, rig := ⟨machine, input, output, trace⟩ }
    else
      match machine.plan with
      | .error e => { result := .error (.fault e), rig := ⟨machine, input, output, trace⟩ }
      | .ok p =>
        match p.action with
        | .input _ =>
          match Channel.take input with
          | (.error s, input) =>
            { result := .error s, rig := ⟨machine, input, output, trace⟩ }
          | (.ok v, input) =>
            let trace := recorded machine p v trace
            finish ⟨machine, input, output, trace⟩ p v (some (.received v))
        | .output v =>
          let trace := recorded machine p 0 trace
          match Channel.put output v with
          | (.error s, output) =>
            { result := .error s, rig := ⟨machine, input, output, trace⟩ }
          | (.ok (), output) =>
            finish ⟨machine, input, output, trace⟩ p 0 (some (.sent v))
        | _ =>
          let trace := recorded machine p 0 trace
          finish ⟨machine, input, output, trace⟩ p 0 none

/-- Executes at most `fuel` instructions. There is no result if the run is not over by then. -/
def run [Channel ι] [Channel ω] : Nat → Rig ι ω → Option (Except Stop HaltState) × Rig ι ω
  | 0, r => (none, r)
  | fuel + 1, r =>
    match r.step with
    | ⟨.error s, r, _⟩ => (some (.error s), r)
    | ⟨.ok .halted, r, _⟩ => (some (.ok r.machine.haltState), r)
    | ⟨.ok .running, r, _⟩ => run fuel r

end Rig

def Failure.ofRun : Option (Except Stop HaltState) → Except Failure HaltState
  | some (.ok s) => .ok s
  | some (.error (.fault f)) => .error (.fault f)
  | some (.error .blocked) | some (.error .crashed) | none => .error .unfinished

/-- Runs a machine on a list of inputs. Beside the result are the output and the records. -/
def Machine.runOn (fuel : Nat) (m : Machine) (inputs : List Word) :
    Except Failure HaltState × List Word × Array Record :=
  let start : Rig Tape Tape := { machine := m, input := .ofList inputs, output := {} }
  let (result, rig) := start.run fuel
  (Failure.ofRun result, rig.output.toList, rig.trace)

def Program.run (fuel : Nat) (p : Program) (inputs : List Word) : Except Failure (List Word) :=
  match (Machine.load p).runOn fuel inputs with
  | (.ok _, output, _) => .ok output
  | (.error e, _, _) => .error e

example : Program.run 10 ⟨#[3, 0, 4, 0, 99]⟩ [7] = .ok [7] := by rfl
example : Program.run 10 ⟨#[3, 0, 4, 0, 99]⟩ [] = .error (.fault .inputExhausted) := by rfl
example : Program.run 10 ⟨#[11101, 1, 1, 5, 99]⟩ [] = .error (.fault (.invalidMode 1 0)) := by rfl

end Intcode
