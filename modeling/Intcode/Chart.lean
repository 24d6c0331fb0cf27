import Intcode.Plane
import Std.Data.ExtTreeMap

/-!
# Charts

A chart says what is known of some points of the plane. Its picture has a row for each `y` and a
character for each `x` of the smallest rectangle around these points.
-/

namespace Intcode

abbrev Chart (α : Type) := Std.ExtTreeMap Point α Point.order

/-- The integers from `a` to `b`, ends included. -/
def between (a b : Int) : List Int := (List.range (b + 1 - a).toNat).map fun (k : Nat) => a + k

def picture (xs ys : List Int) (glyph : Point → Char) : String :=
  "\n".intercalate (ys.map fun y => String.ofList (xs.map fun x => glyph ⟨x, y⟩))

namespace Chart

variable {α : Type}

/-- The least corner and the greatest corner of the rectangle around the known points. -/
def corners? (c : Chart α) : Option (Point × Point) :=
  match c.keys with
  | [] => none
  | p :: rest => some <| rest.foldl (fun (lo, hi) q =>
      (⟨min lo.x q.x, min lo.y q.y⟩, ⟨max hi.x q.x, max hi.y q.y⟩)) (p, p)

/-- The picture of the known points; it is empty if there are none. -/
def picture (c : Chart α) (glyph : Point → Char) : String :=
  match c.corners? with
  | none => ""
  | some (lo, hi) => Intcode.picture (between lo.x hi.x) (between lo.y hi.y) glyph

end Chart

end Intcode
