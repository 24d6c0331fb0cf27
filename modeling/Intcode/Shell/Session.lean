import Intcode.Machine.Run
import Intcode.Shell.Command
import Intcode.Shell.Report

/-!
# Sessions of the shell

A session holds the loaded program, the machine that is stepped through it with its queued input
and unshown output, and the lines so far. Loading a program starts over with all of it but the
lines; a run of the program has a machine of its own and leaves the session as it was.
-/

namespace Intcode.Shell

structure Session where
  program : Program
  rig : Rig Tape Tape
  debug : Bool
  /-- The lines that were neither blank nor the command to quit. -/
  lines : Array (List Char) := #[]

inductive Reply where
  | print (r : Report)
  | reject (e : Rejection)
  | nothing
  | quit
  /-- A run did not end within its bound. -/
  | unfinished
  deriving DecidableEq, Repr

structure Answered where
  reply : Reply
  session : Session
  records : Array Record := #[]

namespace Reply

/-- The reply that shows a report, unless there is nothing to show. -/
def ofReport (r : Report) : Reply := if r.text.isEmpty then nothing else print r

def text? : Reply → Option String
  | print r => some r.text
  | reject e => some e.message
  | nothing | quit | unfinished => none

end Reply

namespace Session

/-- A machine over a program, with nothing queued. -/
def rigOf (p : Program) (debug : Bool) : Rig Tape Tape :=
  { machine := .load p "shell" debug, input := {}, output := {} }

/-- A session whose program halts at once. -/
def start (debug : Bool) : Session :=
  let p : Program := ⟨#[99]⟩
  { program := p, rig := rigOf p debug, debug }

def load (s : Session) (p : Program) : Session := { s with program := p, rig := rigOf p s.debug }

/-- The words between two bounds, which default to the ends of the dense cells; a negative bound
is read as zero. -/
def dump (cells : Array Word) (bounds : List Word) : Report :=
  let bound (w : Word) : Nat := w.toInt.toNat
  let first := (bounds[0]?).elim 0 bound
  let last := (bounds[1]?).elim cells.size bound
  .dump first (cells.extract first last).toList

/-- Runs the program on a machine of its own. -/
def run (fuel : Nat) (s : Session) (inputs : List Word) : Answered :=
  let machine := Machine.load s.program "shell" s.debug
  let (result, output, records) := machine.runOn fuel inputs
  let reply :=
    match result with
    | .ok h => .ofReport (.ran output h.ip)
    | .error (.fault f) => .ofReport (.runFailed output f)
    | .error .unfinished => .unfinished
  { reply, session := s, records }

/-- Executes one instruction and shows the output. If it fails, the output is kept. -/
def step (s : Session) : Answered :=
  match s with
  | ⟨program, ⟨machine, input, output, _⟩, debug, lines⟩ =>
    if machine.halted then
      { reply := .ofReport .alreadyHalted
        session := ⟨program, ⟨machine, input, output, #[]⟩, debug, lines⟩ }
    else
      let a := machine.ip.toInt.toNat
      let line := Disassembly.lineAt machine.memory.cells a
      match Rig.step ⟨machine, input, output, #[]⟩ with
      | ⟨result, ⟨machine, input, output, records⟩, _⟩ =>
        match result with
        | .ok _ =>
          let (shown, output) := output.drain
          { reply := .ofReport (.stepped a line shown machine.halted)
            session := ⟨program, ⟨machine, input, output, #[]⟩, debug, lines⟩
            records }
        | .error stop =>
          { reply := match stop with
              | .fault f => .ofReport (.stepFailed a line f)
              | .blocked | .crashed => .unfinished
            session := ⟨program, ⟨machine, input, output, #[]⟩, debug, lines⟩
            records }

def enqueue (s : Session) (values : List Word) : Session :=
  { s with rig := { s.rig with input := values.foldl Tape.push s.rig.input } }

def execute (fuel : Nat) (s : Session) : Command → Answered
  | .quit => { reply := .quit, session := s }
  | .history => { reply := .ofReport (.history s.lines.toList), session := s }
  | .program => { reply := .ofReport (.program s.rig.machine.memory.cells), session := s }
  | .registers =>
    let m := s.rig.machine
    { reply := .ofReport (.registers m.ip m.base m.halted), session := s }
  | .run inputs => s.run fuel inputs
  | .step => s.step
  | .input values =>
    let s := s.enqueue values
    { reply := .ofReport (.queued s.rig.input.length), session := s }
  | .memory bounds =>
    { reply := .ofReport (dump s.rig.machine.memory.cells bounds), session := s }
  | .load p => { reply := .ofReport (.loaded p.words.size), session := s.load p }

def note (s : Session) (line : List Char) : Session := { s with lines := s.lines.push line }

def eval (fuel : Nat) (s : Session) (raw : List Char) : Answered :=
  let line := Text.trim raw
  if line.isEmpty then { reply := .nothing, session := s }
  else
    match Command.parse line with
    | .error e => { reply := .reject e, session := s.note line }
    | .ok .quit => { reply := .quit, session := s }
    | .ok command =>
      match s.execute fuel command with
      | ⟨reply, s, records⟩ => { reply, session := s.note line, records }

def evalAll (fuel : Nat) (s : Session) : List (List Char) → List Reply
  | [] => []
  | raw :: rest =>
    let a := s.eval fuel raw
    a.reply :: a.session.evalAll fuel rest

example : (start false).evalAll 9 ["104,7,99".toList, ".step".toList, " ".toList] =
    [.print (.loaded 3), .print (.stepped 0 (.instruction .output [(.immediate, 7)]) [7] false),
      .nothing] := by
  rfl

end Session

end Intcode.Shell
