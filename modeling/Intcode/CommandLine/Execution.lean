import Intcode.Arcade
import Intcode.Camera
import Intcode.Circuit.Phases
import Intcode.Circuit.Ring
import Intcode.CommandLine.FileTree
import Intcode.CommandLine.Request
import Intcode.Disassembly
import Intcode.Droid.Controller
import Intcode.Machine.Run

/-!
# Carrying out requests

A request names a file. What the file holds is handed over as bytes, so that nothing here depends
on the world; the result is a report or the reason why there is none, and beside it the records of
all units that ran.
-/

namespace Intcode.CommandLine

inductive Problem where
  | file (e : FileError)
  | listing (e : ListingError)
  | execution (f : Fault)
  /-- No ordering of the phases produced a signal. -/
  | noSignal
  /-- A run did not end within its bound. -/
  | unfinished
  deriving DecidableEq, Repr

namespace Problem

def message : Problem → String
  | file e => s!"Program error: io error: {e.message}"
  | listing e => s!"Program error: {e.message}"
  | execution f => s!"Execution error: {f.message}"
  | noSignal => "No phase ordering produced a signal"
  | unfinished => "Execution did not end"

def ofFailure : Failure → Problem
  | .fault f => execution f
  | .unfinished => unfinished

end Problem

inductive Report where
  | output (words : List Word)
  | disassembly (p : Program)
  | amplifier (phases : List Word) (signal : Word)
  | hull (ps : Hull.Panels)
  | screen (s : Arcade.Screen)
  | view (v : Camera.View)
  | maze (m : Droid.Maze)

namespace Report

def commaText (ws : List Word) : String := ",".intercalate (ws.map Word.text)

def oxygenText (m : Droid.Maze) : String :=
  match m.oxygenSystems.head? with
  | none => "no oxygen system found"
  | some p =>
    s!"oxygen system at {p.text}" ++
      match m.distance .origin p with
      | some moves => s!", {moves} moves from the start"
      | none => ""

def text : Report → String
  | output words => commaText words
  | disassembly p => Disassembly.text p.words
  | amplifier phases signal => s!"phases {commaText phases} -> signal {signal.text}"
  | hull ps => s!"{ps.size} panels painted\n" ++ ps.picture
  | screen s => s.picture ++ s!"\nblocks: {s.blocks}\nscore: {s.score.text}"
  | view v =>
    v.picture ++ s!"\nalignment parameter: {v.alignment}" ++
      match v.report with
      | some w => s!"\nreport: {w.text}"
      | none => ""
  | maze m => m.picture ++ "\n" ++ oxygenText m

end Report

/-- Reads the listing on the first line of a file. -/
def readListing (content : Except FileError ByteArray) : Except Problem Program :=
  match content with
  | .error e => .error (.file e)
  | .ok bytes =>
    match String.fromUTF8? bytes with
    | none => .error (.file .notText)
    | some s => (Program.parse (s.toList.takeWhile (· != '\n'))).mapError .listing

/-- A search that can fail and gathers records. -/
abbrev Search := ExceptT Failure (StateM Traces)

def Search.ofRun {α : Type} (r : Except Failure α × Traces) : Search α := do
  modify (Traces.append · r.2)
  match r.1 with
  | .ok a => return a
  | .error e => throw e

/-- Looks for the strongest signal of the amplifiers, in a row or in a ring. -/
def amplify (fuel : Nat) (p : Program) (feedback debug : Bool) : Except Problem Report × Traces :=
  let search : Search (Option Candidate) :=
    if feedback then
      bestPhases [5, 6, 7, 8, 9] fun phases => .ofRun (Ring.run fuel p phases 0 debug)
    else
      bestPhases [0, 1, 2, 3, 4] fun phases => .ofRun (Chain.run fuel p phases 0 debug)
  let (best, traces) := search.run.run []
  match best with
  | .ok (some (phases, signal)) => (.ok (.amplifier phases signal), traces)
  | .ok none => (.error .noSignal, traces)
  | .error e => (.error (.ofFailure e), traces)

/-- Runs a program on its own. To trace the run takes a machine that is told to keep records. -/
def run (fuel : Nat) (p : Program) (inputs : List Word) (debug : Bool) :
    Except Problem Report × Traces :=
  if debug then
    let (result, output, records) := (Machine.load p "main" true).runOn fuel inputs
    let report :=
      match result with
      | .ok _ => .ok (.output output)
      | .error e => .error (.ofFailure e)
    (report, [("main", records)])
  else
    match p.run fuel inputs with
    | .ok output => (.ok (.output output), [])
    | .error e => (.error (.ofFailure e), [])

def reported {α : Type} (f : α → Report) (r : Except Failure α × Traces) :
    Except Problem Report × Traces :=
  ((r.1.map f).mapError .ofFailure, r.2)

def perform (fuel : Nat) (p : Program) (debug : Bool) : Task → Except Problem Report × Traces
  | .run inputs => run fuel p inputs debug
  | .disasm => (.ok (.disassembly p), [])
  | .amplify feedback => amplify fuel p feedback debug
  | .paint start => reported .hull (Hull.paint fuel p start debug)
  | .arcade quarters => reported .screen (Arcade.play fuel p quarters debug)
  | .ascii => reported .view (Camera.capture fuel p [] debug)
  | .droid => reported .maze (Droid.explore fuel p debug)

def execute (fuel : Nat) (r : Request) (s : Settings) (content : Except FileError ByteArray) :
    Except Problem Report × Traces :=
  match readListing content with
  | .error e => (.error e, [])
  | .ok p => perform fuel p (r.settings s).debug r.task

end Intcode.CommandLine
