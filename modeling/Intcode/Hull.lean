import Intcode.Chart
import Intcode.Device.Loop

/-!
# Hull painting

A robot moves over panels and paints them. It is told pairs of words: the colour for the panel
under it, and the turn to make, left for zero and right for anything else. It then steps ahead and
answers with the colour of the panel that it has come to.
-/

namespace Intcode.Hull

inductive Color where
  | black
  | white
  deriving DecidableEq, Repr

namespace Color

def word : Color → Word
  | black => 0
  | white => 1

/-- The colour of a word. A word that names none stands for white. -/
def ofWord (w : Word) : Color × List Warning :=
  if w = 0 then (black, [])
  else if w = 1 then (white, [])
  else (white, [.unexpectedColor w])

def glyph : Color → Char
  | black => '.'
  | white => '#'

end Color

abbrev Panels := Chart Color

namespace Panels

/-- The colour of a panel. One that has not been painted is black. -/
def colorAt (ps : Panels) (p : Point) : Color := ps.getD p .black

def picture (ps : Panels) : String := Chart.picture ps fun p => (colorAt ps p).glyph

end Panels

structure Robot where
  panels : Panels
  position : Point := .origin
  heading : Heading := .north
  /-- The colour of a pair whose turn is still to come. -/
  color : Option Color := none

/-- Paints the panel under the robot, turns and steps ahead. -/
def Robot.move (r : Robot) (color : Color) (turn : Word) : Robot :=
  let heading := if turn = 0 then r.heading.left else r.heading.right
  { panels := r.panels.insert r.position color
    position := r.position + heading.step
    heading
    color := none }

instance : Device Robot where
  respond r w :=
    match r.color with
    | none =>
      let (color, warnings) := Color.ofWord w
      { device := { r with color := some color }, answer := .silent, warnings }
    | some color =>
      let r := r.move color w
      { device := r, answer := .reply (r.panels.colorAt r.position).word }

/-- Lets a program steer a robot over a hull whose first panel has the given colour. A black one
counts as not painted. -/
def paint (fuel : Nat) (p : Program) (start : Color) (debug : Bool) :
    Except Failure Panels × Traces :=
  let panels : Panels :=
    match start with
    | .black => ∅
    | .white => (∅ : Panels).insert .origin .white
  let l := Loop.run fuel "brain" p (Wire.ofList [start.word]) ({ panels } : Robot) debug
  (l.result.map fun _ => l.relay.device.panels, [(l.cpu.id, l.cpu.trace)])

end Intcode.Hull
