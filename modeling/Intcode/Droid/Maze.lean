import Intcode.Channel.Fifo
import Intcode.Chart

/-!
# Mazes

What a droid has found out about the area around its starting point, how often it has been where,
and the questions that the map answers: which way to go on, whether everything that can be reached
has been seen, and how far it is from one place to another.
-/

namespace Intcode.Droid

inductive Cell where
  | wall
  | floor
  | oxygen
  deriving DecidableEq, Repr

def Cell.glyph : Cell → Char
  | wall => '#'
  | floor => '.'
  | oxygen => '$'

structure Maze where
  cells : Chart Cell
  /-- How often the droid has been at a point. -/
  visits : Chart Nat
  /-- Whether the survey is over. -/
  complete : Bool

namespace Maze

/-- The map that knows the open starting point only. -/
def start : Maze :=
  { cells := (∅ : Chart Cell).insert .origin .floor
    visits := (∅ : Chart Nat).insert .origin 1
    complete := false }

def cellAt? (m : Maze) (p : Point) : Option Cell := m.cells[p]?

/-- The number of points that are known, walls included. -/
def known (m : Maze) : Nat := m.cells.size

def isWall (m : Maze) (p : Point) : Bool := m.cellAt? p == some .wall

def isPassable (m : Maze) (p : Point) : Bool :=
  match m.cellAt? p with
  | some .floor | some .oxygen => true
  | _ => false

/-- Whether all neighbours of all known points other than walls are known. -/
def isExplored (m : Maze) : Bool :=
  m.cells.toList.all fun c => c.2 == .wall || c.1.neighbours.all m.cells.contains

def visitsAt (m : Maze) (p : Point) : Nat := m.visits.getD p 0

def visit (m : Maze) (p : Point) : Maze :=
  { m with visits := m.visits.insert p (m.visitsAt p + 1) }

def record (m : Maze) (p : Point) (c : Cell) : Maze := { m with cells := m.cells.insert p c }

/-- The order in which directions are considered. -/
def scan : List Heading := [.north, .west, .south, .east]

/-- The better of the best direction so far and the next one; a tie goes to the next one. -/
def prefer (m : Maze) (p : Point) (best : Option (Heading × Nat)) (h : Heading) :
    Option (Heading × Nat) :=
  let q := p + h.step
  if m.isWall q then best
  else
    match best with
    | some (_, fewest) => if m.visitsAt q ≤ fewest then some (h, m.visitsAt q) else best
    | none => some (h, m.visitsAt q)

/-- The direction of the least visited neighbour that is not known as a wall. -/
def nextHeading (m : Maze) (p : Point) : Option Heading :=
  (scan.foldl (m.prefer p) none).map Prod.fst

def oxygenSystems (m : Maze) : List Point :=
  (m.cells.toList.filter fun c => c.2 == .oxygen).map Prod.fst

structure Search where
  /-- The points that have been found and not been looked at yet, in the order of their finding. -/
  queue : Fifo Point
  /-- The number of moves to every point that has been found. -/
  moves : Chart Nat

def Search.start (p : Point) : Search :=
  { queue := .ofList [p], moves := (∅ : Chart Nat).insert p 0 }

inductive Finding where
  /-- The goal is a number of moves away. -/
  | reached (moves : Nat)
  | unreachable
  /-- It is not on record how far a queued point is. -/
  | unrecorded
  deriving DecidableEq, Repr

/-- Enters a point the given number of moves away, if it is passable and has not been found. -/
def discover (m : Maze) (moves : Nat) (s : Search) (p : Point) : Search :=
  if m.isPassable p && !s.moves.contains p then
    { queue := s.queue.push p, moves := s.moves.insert p moves }
  else s

/-- Looks at the first point of the queue: it is the goal, or its neighbours are entered. -/
def turn (m : Maze) (goal : Point) (s : Search) : Except Finding Search :=
  match s.queue.pop? with
  | none => .error .unreachable
  | some (p, queue) =>
    match s.moves[p]? with
    | none => .error .unrecorded
    | some moves =>
      if p = goal then .error (.reached moves)
      else .ok (p.neighbours.foldl (m.discover (moves + 1)) { s with queue })

/-- Takes at most `fuel` turns. The search is still under way if none of them ends it. -/
def search (m : Maze) (goal : Point) : Nat → Search → Except Finding Search
  | 0, s => .ok s
  | fuel + 1, s =>
    match m.turn goal s with
    | .error finding => .error finding
    | .ok s => search m goal fuel s

/-- The fewest moves from one point to another over known points other than walls. No point is
looked at twice, so the search takes at most one turn more than there are known points. -/
def distance (m : Maze) (p goal : Point) : Option Nat :=
  if m.isPassable p then
    match m.search goal (m.known + 1) (.start p) with
    | .error (.reached moves) => some moves
    | _ => none
  else none

/-- The known points, with the start as `S`. -/
def picture (m : Maze) : String :=
  Chart.picture m.cells fun p =>
    if p = .origin then 'S' else ((m.cellAt? p).map Cell.glyph).getD ' '

end Maze

end Intcode.Droid
