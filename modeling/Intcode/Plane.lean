/-!
# The plane

Points with integer coordinates and the four headings. As on a screen, `y` grows downward.
-/

namespace Intcode

structure Point where
  x : Int
  y : Int
  deriving DecidableEq, Repr

inductive Heading where
  | north
  | east
  | south
  | west
  deriving DecidableEq, Repr

namespace Heading

def all : List Heading := [north, east, south, west]

def left : Heading → Heading
  | north => west
  | west => south
  | south => east
  | east => north

def right : Heading → Heading
  | north => east
  | east => south
  | south => west
  | west => north

def step : Heading → Point
  | north => ⟨0, -1⟩
  | east => ⟨1, 0⟩
  | south => ⟨0, 1⟩
  | west => ⟨-1, 0⟩

end Heading

namespace Point

def origin : Point := ⟨0, 0⟩

instance : Add Point where
  add p q := ⟨p.x + q.x, p.y + q.y⟩

/-- The order by `x` and then by `y`. -/
def order : Point → Point → Ordering :=
  compareLex (compareOn Point.x) (compareOn Point.y)

instance : Std.TransCmp order := inferInstanceAs (Std.TransCmp (compareLex _ _))

instance : Std.LawfulEqCmp order where
  eq_of_compare {p q} h := by
    obtain ⟨hx, hy⟩ := compareLex_eq_eq.mp h
    cases p
    cases q
    simp only [compareOn, Std.LawfulEqCmp.compare_eq_iff_eq] at hx hy
    subst hx hy
    rfl

/-- The number of steps between two points. -/
def steps (p q : Point) : Nat := (p.x - q.x).natAbs + (p.y - q.y).natAbs

/-- The points one step away, clockwise from the north. -/
def neighbours (p : Point) : List Point := Heading.all.map fun h => p + h.step

def text (p : Point) : String := s!"[{p.x},{p.y}]"

theorem add_eq (p q : Point) : p + q = ⟨p.x + q.x, p.y + q.y⟩ := rfl

end Point

end Intcode
