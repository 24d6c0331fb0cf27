import Intcode.Device.Loop
import Intcode.Droid.Maze

/-!
# Controlling a droid

A droid reads a movement command and answers with a status: 0 for a wall in its way, 1 for a move,
2 for a move to the oxygen system. The controller answers each status with the next command, always
towards the least visited neighbour, and hangs up on the droid once everything that can be reached
has been seen.
-/

namespace Intcode.Droid

def command : Heading → Word
  | .north => 1
  | .south => 2
  | .west => 3
  | .east => 4

/-- The map so far, where the droid is and which way it was told to move. -/
structure Controller where
  maze : Maze := .start
  position : Point := .origin
  moving : Option Heading := none

namespace Controller

/-- The next command; there is none, and the survey is over, when nothing is left to see. -/
def next (c : Controller) : Option Word × Controller :=
  let heading := if c.maze.isExplored then none else c.maze.nextHeading c.position
  match heading with
  | some h => (some (command h), { c with moving := some h })
  | none => (none, { c with maze := { c.maze with complete := true }, moving := none })

def cellOf (status : Word) : Cell × List Warning :=
  if status = 0 then (.wall, [])
  else if status = 1 then (.floor, [])
  else if status = 2 then (.oxygen, [])
  else (.wall, [.unknownStatus status])

/-- Enters what was found one step ahead, and moves there unless it is a wall. -/
def observe (c : Controller) (h : Heading) (cell : Cell) : Controller :=
  let p := c.position + h.step
  let maze := c.maze.record p cell
  match cell with
  | .wall => { maze, position := c.position }
  | _ => { maze := maze.visit p, position := p }

end Controller

instance : Device Controller where
  respond c status :=
    match c.moving with
    | none => { device := c, answer := .silent, warnings := [.strayStatus status] }
    | some h =>
      let (cell, warnings) := Controller.cellOf status
      match (c.observe h cell).next with
      | (some w, device) => { device, answer := .reply w, warnings }
      | (none, device) => { device, answer := .silent, hangsUp := true, warnings }

/-- Lets a droid's program explore its area. That the droid has lost its connection is no failure
once the survey is over. -/
def explore (fuel : Nat) (p : Program) (debug : Bool) : Except Failure Maze × Traces :=
  let (first, controller) := ({} : Controller).next
  let commands :=
    match first with
    | some w => Wire.ofList [w]
    | none => ({} : Wire).close
  let l := Loop.run fuel "droid" p commands controller debug
  let maze := l.relay.device.maze
  let result :=
    match l.result with
    | .ok _ => .ok maze
    | .error (.fault .notConnected) =>
      if maze.complete then .ok maze else .error (.fault .notConnected)
    | .error e => .error e
  (result, [(l.cpu.id, l.cpu.trace)])

end Intcode.Droid
