import Intcode.Channel.Tape
import Intcode.Plane
import Intcode.Processor
import Intcode.Text.Blank

/-!
# Camera views

A camera prints its view of a scaffold as ASCII text, one value for each character. A value that is
no ASCII code is no part of the picture but a report.
-/

namespace Intcode.Camera

/-- A picture, as its rows, and the last report. -/
structure View where
  rows : List (List Char) := []
  report : Option Word := none
  deriving DecidableEq, Repr

def char? (w : Word) : Option Char :=
  match w.toNat? with
  | some n => if n < 128 then some (Char.ofNat n) else none
  | none => none

namespace View

/-- Reads what a camera printed. Empty rows do not count. -/
def ofOutput (output : List Word) : View :=
  { rows := (Text.pieces (· == '\n') (output.filterMap char?)).filter (!·.isEmpty)
    report := (output.filter fun w => (char? w).isNone).getLast? }

def at? (v : View) (p : Point) : Option Char :=
  if p.x < 0 ∨ p.y < 0 then none
  else (v.rows[p.y.toNat]?).bind (·[p.x.toNat]?)

/-- Whether there is a scaffold at a point, be it under the robot. -/
def isScaffold (v : View) (p : Point) : Bool :=
  match v.at? p with
  | some c => ['#', '^', 'v', '<', '>'].contains c
  | none => false

def cells (v : View) : List (Point × Char) :=
  v.rows.zipIdx.flatMap fun (row, y) => row.zipIdx.map fun (c, x) => (⟨x, y⟩, c)

def heading? : Char → Option Heading
  | '^' => some .north
  | '>' => some .east
  | 'v' => some .south
  | '<' => some .west
  | _ => none

def robot (v : View) : Option (Point × Heading) :=
  v.cells.findSome? fun (p, c) => (heading? c).map (p, ·)

/-- The points with a scaffold at them and at all four neighbours, row by row. -/
def intersections (v : View) : List Point :=
  (v.cells.map Prod.fst).filter fun p => v.isScaffold p && p.neighbours.all v.isScaffold

def alignment (v : View) : Int := v.intersections.foldl (fun sum p => sum + p.x * p.y) 0

def picture (v : View) : String := "\n".intercalate (v.rows.map String.ofList)

end View

/-- A line of text as input: its bytes in UTF-8 and a line break. -/
def encodeLine (line : List Char) : List Word :=
  line.flatMap (fun c => (String.utf8EncodeChar c).map fun b => Int64.ofNat b.toNat) ++ [10]

def capture (fuel : Nat) (p : Program) (lines : List (List Char)) (debug : Bool) :
    Except Failure View × Traces :=
  let cpu : Processor Unit := (Processor.load "ascii" p debug).start.2
  let (cpu, _, screen) := cpu.drive fuel (Tape.ofList (lines.flatMap encodeLine)) ({} : Tape)
  let result :=
    match cpu.outcome? with
    | some (.ok _) => .ok (View.ofOutput screen.toList)
    | some (.error f) => .error (.fault f)
    | none => .error .unfinished
  (result, [(cpu.id, cpu.trace)])

end Intcode.Camera
