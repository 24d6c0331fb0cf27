import Intcode.Channel.Joystick
import Intcode.Chart
import Intcode.Device.Loop
import Intcode.Text.Blank

/-!
# Arcade games

A game tells its cabinet triples of words: a place and the tile to draw there, or -1, 0 and a score.
Once the ball and the paddle are on the screen, the cabinet answers each move of one of them with a
tilt of the joystick that brings the paddle under the ball.
-/

namespace Intcode.Arcade

inductive Tile where
  | empty
  | wall
  | block
  | paddle
  | ball
  deriving DecidableEq, Repr

namespace Tile

def ofWord? (w : Word) : Option Tile :=
  match w.toNat? with
  | some 0 => some empty
  | some 1 => some wall
  | some 2 => some block
  | some 3 => some paddle
  | some 4 => some ball
  | _ => none

def glyph : Tile → Char
  | empty => ' '
  | wall => '|'
  | block => '#'
  | paddle => '_'
  | ball => 'o'

end Tile

structure Screen where
  tiles : Chart Tile := ∅
  score : Word := 0
  /-- Where the ball was drawn last. -/
  ball : Option Point := none
  /-- Where the paddle was drawn last. -/
  paddle : Option Point := none

namespace Screen

def tileAt (s : Screen) (p : Point) : Tile := s.tiles.getD p .empty

def blocks (s : Screen) : Nat := s.tiles.values.countP (· == .block)

/-- The score and the rows from the origin to the greatest coordinates, blanks at their ends
removed. -/
def picture (s : Screen) : String :=
  let points := s.tiles.keys
  let right := points.foldl (fun n p => max n p.x) (-1)
  let bottom := points.foldl (fun n p => max n p.y) (-1)
  let row (y : Int) : String :=
    String.ofList (Text.trimEnd ((between 0 right).map fun x => (s.tileAt ⟨x, y⟩).glyph))
  "\n".intercalate (s!"score: {s.score.text}" :: (between 0 bottom).map row)

/-- Where to tilt the joystick. Once no block is left there is nothing to steer for. -/
def tilt (s : Screen) (ball paddle : Point) : Word :=
  if s.blocks = 0 then 0 else Int64.ofInt (ball.x - paddle.x).sign

/-- Draws a tile, and answers if the ball or the paddle moved and both are there. -/
def draw (s : Screen) (p : Point) (t : Tile) : Screen × Answer :=
  let s := { s with tiles := s.tiles.insert p t }
  let steer (s : Screen) : Screen × Answer :=
    match s.ball, s.paddle with
    | some ball, some paddle => (s, .reply (s.tilt ball paddle))
    | _, _ => (s, .silent)
  match t with
  | .ball => steer { s with ball := some p }
  | .paddle => steer { s with paddle := some p }
  | _ => (s, .silent)

end Screen

/-- A screen and the words of a triple that is still to be completed. -/
structure Cabinet where
  screen : Screen := {}
  held : List Word := []

def Cabinet.respondTo (s : Screen) (x y id : Word) : Response Cabinet :=
  if x = -1 ∧ y = 0 then
    { device := { screen := { s with score := id } }, answer := .silent }
  else
    match Tile.ofWord? id with
    | none =>
      { device := { screen := s }, answer := .silent, warnings := [.unknownTile id x y] }
    | some t =>
      let (screen, answer) := s.draw ⟨x.toInt, y.toInt⟩ t
      { device := { screen }, answer }

instance : Device Cabinet where
  respond c w :=
    match c.held with
    | [x, y] => Cabinet.respondTo c.screen x y w
    | held => { device := { c with held := held ++ [w] }, answer := .silent }

/-- Plays a game to its end. If a number of quarters is given, it is put at address 0 first. -/
def play (fuel : Nat) (p : Program) (quarters : Option Word) (debug : Bool) :
    Except Failure Screen × Traces :=
  let p := match quarters with | some q => p.patch 0 q | none => p
  let l := Loop.run fuel "game" p ({} : Joystick) ({} : Cabinet) debug
  (l.result.map fun _ => l.relay.device.screen, [(l.cpu.id, l.cpu.trace)])

end Intcode.Arcade
