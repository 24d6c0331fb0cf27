import Intcode.Plane
import Mathlib.Data.Nat.Find
import Mathlib.Order.Bounds.Basic

/-!
# Walks

Which points are next to each other, and the walks from a point that move onto free points only.
Whether the point that a walk starts from is free does not matter.
-/

namespace Intcode

namespace Point

theorem mem_neighbours {p q : Point} : q ∈ p.neighbours ↔ ∃ h : Heading, q = p + h.step := by
  simp only [neighbours, List.mem_map, Heading.all]
  constructor
  · rintro ⟨h, _, rfl⟩
    exact ⟨h, rfl⟩
  · rintro ⟨h, rfl⟩
    exact ⟨h, by cases h <;> decide, rfl⟩

theorem step_mem_neighbours (p : Point) (h : Heading) : p + h.step ∈ p.neighbours :=
  mem_neighbours.mpr ⟨h, rfl⟩

/-- The neighbours of a point are the points that differ from it by one in one coordinate, whatever
the headings are. -/
theorem mem_neighbours_iff_steps {p q : Point} : q ∈ p.neighbours ↔ p.steps q = 1 := by
  obtain ⟨x, y⟩ := p
  obtain ⟨u, v⟩ := q
  simp only [neighbours, Heading.all, Heading.step, add_eq, steps, List.map_cons, List.map_nil,
    List.mem_cons, List.not_mem_nil, mk.injEq, or_false]
  omega

theorem neighbours_symm {p q : Point} (next : q ∈ p.neighbours) : p ∈ q.neighbours := by
  rw [mem_neighbours_iff_steps, steps] at next ⊢
  omega

theorem step_ne (p : Point) (h : Heading) : p + h.step ≠ p := by
  intro same
  have apart := mem_neighbours_iff_steps.mp (p.step_mem_neighbours h)
  rw [same, steps] at apart
  omega

end Point

/-- A walk of a number of moves, each to a neighbour that is free. -/
inductive Walk (free : Point → Prop) (p : Point) : Nat → Point → Prop
  | stay : Walk free p 0 p
  | move {n : Nat} {q r : Point} :
      Walk free p n q → r ∈ q.neighbours → free r → Walk free p (n + 1) r

namespace Walk

variable {free other : Point → Prop} {p q : Point} {n : Nat}

theorem eq_of_zero (w : Walk free p 0 q) : q = p := by
  cases w
  rfl

/-- A walk that moves has come from a neighbour. -/
theorem last (w : Walk free p (n + 1) q) :
    free q ∧ ∃ r, Walk free p n r ∧ q ∈ r.neighbours := by
  cases w with
  | move before next isFree => exact ⟨isFree, _, before, next⟩

/-- Only the points that walks lead to need to be free. -/
theorem imp (w : Walk free p n q) (keep : ∀ {n r}, Walk free p n r → free r → other r) :
    Walk other p n q := by
  induction w with
  | stay => exact .stay
  | move before next isFree ih => exact ih.move next (keep (before.move next isFree) isFree)

/-- What spreads back from a free point to its neighbours spreads back along a walk. -/
theorem spread (w : Walk free p n q) (good : Point → Prop) (h : good q)
    (back : ∀ {a b}, b ∈ a.neighbours → free b → good b → good a) : good p := by
  induction w with
  | stay => exact h
  | move _ next isFree ih => exact ih (back next isFree h)

end Walk

/-- The least number of moves of a walk. -/
def Apart (free : Point → Prop) (p q : Point) (n : Nat) : Prop :=
  IsLeast {n | Walk free p n q} n

namespace Apart

variable {free : Point → Prop} {p q : Point} {m n : Nat}

/-- The point before the end of a shortest walk is one move less away. -/
theorem last (h : Apart free p q (n + 1)) :
    free q ∧ ∃ r, Apart free p r n ∧ q ∈ r.neighbours := by
  obtain ⟨isFree, r, before, next⟩ := Walk.last h.1
  refine ⟨isFree, r, ⟨before, fun m shorter => ?_⟩, next⟩
  have least := h.2 (Walk.move shorter next isFree)
  omega

/-- A shortest walk goes through points of all smaller distances. -/
theorem through (h : Apart free p q n) (le : m ≤ n) : ∃ r, Apart free p r m := by
  induction n generalizing q with
  | zero => exact ⟨q, Nat.le_zero.mp le ▸ h⟩
  | succ n ih =>
    rcases Nat.le_succ_iff.mp le with le | rfl
    · obtain ⟨_, r, before, _⟩ := h.last
      exact ih before le
    · exact ⟨q, h⟩

theorem unique (h : Apart free p q m) (h' : Apart free p q n) : m = n :=
  IsLeast.unique h h'

end Apart

/-- A point that can be walked to has a distance. -/
theorem Walk.exists_apart {free : Point → Prop} {p q : Point} {n : Nat} (w : Walk free p n q) :
    ∃ d, Apart free p q d := by
  classical
  have walks : ∃ d, Walk free p d q := ⟨n, w⟩
  exact ⟨Nat.find walks, Nat.find_spec walks, fun m h => Nat.find_min' walks h⟩

end Intcode
