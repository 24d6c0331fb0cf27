import Intcode.Proofs.Droid.Search
import Intcode.Proofs.Droid.Survey

/-!
# What a survey finds out

A controller that gets truthful answers knows the droid's position and enters what is there. Every
point that it knows and that is no wall can be walked to from the starting point, and the droid can
be walked to from there. The frontier test therefore stops the survey only when nothing is left to
see; so does a droid that is walled in, since the starting point is then all that it can reach.
-/

namespace Intcode.Droid

/-- The reachable points and the walls next to them. -/
def Area.InSight (area : Area) (p : Point) : Prop :=
  area.Reachable p ∨ area p = .wall ∧ ∃ q, area.Reachable q ∧ p ∈ q.neighbours

theorem Area.Reachable.move {area : Area} {p q : Point} (reached : area.Reachable p)
    (next : q ∈ p.neighbours) (free : area.Free q) : area.Reachable q := by
  obtain ⟨n, w⟩ := reached
  exact ⟨n + 1, w.move next free⟩

theorem Area.Free.of_floor {area : Area} {p : Point} (floor : area p = .floor) : area.Free p := by
  rw [Area.Free, floor]
  exact nofun

theorem Area.Free.of_reachable {area : Area} {p : Point} (start : area.Free .origin)
    (reached : area.Reachable p) : area.Free p := by
  obtain ⟨_, w⟩ := reached
  cases w with
  | stay => exact start
  | move _ _ free => exact free

namespace Controller

variable {area : Area} {c : Controller} {h : Heading} {p : Point}

theorem cellAt?_observe (c : Controller) (h : Heading) (cell : Cell) (p : Point) :
    (c.observe h cell).maze.cellAt? p =
      if c.position + h.step = p then some cell else c.maze.cellAt? p := by
  cases cell <;> simp [observe, Maze.cellAt?_record]

theorem visitsAt_observe (c : Controller) (h : Heading) (cell : Cell) (p : Point) :
    (c.observe h cell).maze.visitsAt p =
      c.maze.visitsAt p + if c.position + h.step = p ∧ cell ≠ .wall then 1 else 0 := by
  cases cell <;> simp [observe, Maze.visitsAt_visit]

theorem pursue_of_heading (chosen : c.heading? = some h) :
    c.pursue area = c.observe h (area (c.position + h.step)) := by
  simp only [pursue, chosen]

theorem pursue_of_none (finished : c.heading? = none) : c.pursue area = c := by
  simp only [pursue, finished]

/-- What a controller knows of an area. Only of the starting point it may be wrong: it takes that to
be plain floor. -/
structure Informed (area : Area) (c : Controller) : Prop where
  reached : area.Reachable c.position
  start : (c.maze.cellAt? .origin).isSome = true
  truth : ∀ p cell, c.maze.cellAt? p = some cell → area p = cell ∨ p = .origin ∧ cell = .floor
  walls : ∀ p, c.maze.isWall p = true →
    area p = .wall ∧ ∃ q, area.Reachable q ∧ p ∈ q.neighbours
  passable : ∀ p, c.maze.isPassable p = true →
    area.Reachable p ∧ ∃ n, Walk area.Free p n c.position
  visited : ∀ p, 0 < c.maze.visitsAt p → (c.maze.cellAt? p).isSome = true

theorem informed_start (area : Area) : Informed area {} where
  reached := ⟨0, .stay⟩
  start := rfl
  truth p cell known := by
    rw [Maze.cellAt?_start] at known
    split at known <;> cases known
    rename_i here
    exact .inr ⟨here.symm, rfl⟩
  walls p wall := by
    rw [Maze.isWall_iff, Maze.cellAt?_start] at wall
    split at wall <;> cases wall
  passable p known := by
    obtain ⟨cell, known, -⟩ := Maze.isPassable_iff.mp known
    rw [Maze.cellAt?_start] at known
    split at known <;> cases known
    rename_i here
    exact here ▸ ⟨⟨0, .stay⟩, 0, .stay⟩
  visited p often := by
    rw [Maze.visitsAt_start] at often
    rw [Maze.cellAt?_start]
    split
    · rfl
    · rename_i elsewhere
      rw [if_neg elsewhere] at often
      omega

theorem Informed.observe (i : Informed area c) (h : Heading) :
    Informed area (c.observe h (area (c.position + h.step))) := by
  have next := c.position.step_mem_neighbours h
  have here := position_observe c h (area (c.position + h.step))
  have read := cellAt?_observe c h (area (c.position + h.step))
  have often := visitsAt_observe c h (area (c.position + h.step))
  generalize c.position + h.step = q at next here read often
  generalize c.observe h (area q) = c' at here read often
  refine ⟨?_, ?_, fun p cell known => ?_, fun p wall => ?_, fun p passable => ?_, fun p been => ?_⟩
  · rw [here]
    split
    · exact i.reached
    · rename_i free
      exact i.reached.move next free
  · rw [read]
    split
    · rfl
    · exact i.start
  · rw [read] at known
    split at known
    · rename_i same
      subst same
      exact .inl (Option.some.inj known)
    · exact i.truth p cell known
  · rw [Maze.isWall_iff, read] at wall
    split at wall
    · rename_i same
      subst same
      exact ⟨Option.some.inj wall, c.position, i.reached, next⟩
    · exact i.walls p (Maze.isWall_iff.mpr wall)
  · obtain ⟨cell, known, notWall⟩ := Maze.isPassable_iff.mp passable
    rw [read] at known
    split at known
    · rename_i same
      subst same
      have free : area.Free q := by
        rw [Area.Free, Option.some.inj known]
        exact notWall
      rw [here, if_neg free]
      exact ⟨i.reached.move next free, 0, .stay⟩
    · obtain ⟨reached, n, w⟩ := i.passable p (Maze.isPassable_iff.mpr ⟨cell, known, notWall⟩)
      refine ⟨reached, ?_⟩
      rw [here]
      split
      · exact ⟨n, w⟩
      · rename_i free
        exact ⟨n + 1, w.move next free⟩
  · rw [read]
    split
    · rfl
    · rename_i elsewhere
      rw [often, if_neg fun h => elsewhere h.1] at been
      exact i.visited p been

theorem Informed.pursue (i : Informed area c) : Informed area (c.pursue area) := by
  unfold Controller.pursue
  split
  · exact i.observe _
  · exact i

theorem informed_iterate (area : Area) (n : Nat) :
    Informed area ((Controller.pursue area)^[n] {}) := by
  induction n with
  | zero => exact informed_start area
  | succ n ih =>
    rw [Function.iterate_succ_apply']
    exact ih.pursue

/-- Choosing where to go teaches nothing. -/
theorem Informed.next (i : Informed area c) : Informed area c.next.2 := by
  cases chosen : c.heading? with
  | some h =>
    rw [next_of_heading chosen]
    exact ⟨i.reached, i.start, i.truth, i.walls, i.passable, i.visited⟩
  | none =>
    rw [next_of_none chosen]
    exact ⟨i.reached, i.start, i.truth, i.walls, i.passable, i.visited⟩

/-- Where the starting point is plain floor, whatever is known is true. -/
theorem Informed.cell_eq (i : Informed area c) (start : area .origin = .floor) {cell : Cell}
    (known : c.maze.cellAt? p = some cell) : area p = cell := by
  rcases i.truth p cell known with truth | ⟨rfl, rfl⟩
  · exact truth
  · exact start

theorem Informed.free_of_passable (i : Informed area c) (start : area.Free .origin)
    (known : c.maze.isPassable p = true) : area.Free p := by
  obtain ⟨cell, known, notWall⟩ := Maze.isPassable_iff.mp known
  rcases i.truth p cell known with truth | ⟨rfl, -⟩
  · rw [Area.Free, truth]
    exact notWall
  · exact start

/-- A survey that is over has passed the frontier test, also when it ended for the other reason: no
walk leads on to a place between walls. -/
theorem Informed.explored_of_over (i : Informed area c) (start : area.Free .origin)
    (finished : c.heading? = none) : c.maze.isExplored = true := by
  by_contra unseen
  unfold heading? at finished
  rw [if_neg unseen] at finished
  have walled : ∀ q ∈ c.position.neighbours, c.maze.isWall q = true := by
    intro q next
    obtain ⟨h, rfl⟩ := Point.mem_neighbours.mp next
    exact Maze.nextHeading_none finished h
  have alone : ∀ {p n}, area.Free p → Walk area.Free p n c.position → p = c.position := by
    intro p n free w
    cases n with
    | zero => exact w.eq_of_zero.symm
    | succ n =>
      obtain ⟨-, r, before, next⟩ := w.last
      have wall := (i.walls r (walled r (Point.neighbours_symm next))).1
      cases before with
      | stay => exact absurd wall free
      | move _ _ free => exact absurd wall free
  refine unseen (Maze.isExplored_iff.mpr fun p known q next => ?_)
  obtain ⟨-, n, w⟩ := i.passable p known
  rw [alone (i.free_of_passable start known) w] at next
  rw [Maze.isWall_iff.mp (walled q next)]
  rfl

/-- Once the frontier test passes, all reachable points are known. -/
theorem Informed.passable_of_reachable (i : Informed area c) (start : area.Free .origin)
    (explored : c.maze.isExplored = true) (reached : area.Reachable p) :
    c.maze.isPassable p = true := by
  have passable_of_known : ∀ {q}, area.Free q → (c.maze.cellAt? q).isSome = true →
      c.maze.isPassable q = true := by
    intro q free known
    obtain ⟨cell, known⟩ := Option.isSome_iff_exists.mp known
    refine Maze.isPassable_iff.mpr ⟨cell, known, ?_⟩
    rcases i.truth q cell known with rfl | ⟨-, rfl⟩
    · exact free
    · exact nofun
  obtain ⟨n, w⟩ := reached
  induction w with
  | stay => exact passable_of_known start i.start
  | move _ next free ih =>
    exact passable_of_known free (Maze.isExplored_iff.mp explored _ ih _ next)

theorem Informed.known_iff (i : Informed area c) (start : area.Free .origin)
    (explored : c.maze.isExplored = true) :
    (c.maze.cellAt? p).isSome = true ↔ area.InSight p := by
  constructor
  · intro known
    obtain ⟨cell, known⟩ := Option.isSome_iff_exists.mp known
    by_cases wall : cell = .wall
    · subst wall
      exact .inr (i.walls p (Maze.isWall_iff.mpr known))
    · exact .inl (i.passable p (Maze.isPassable_iff.mpr ⟨cell, known, wall⟩)).1
  · rintro (reached | ⟨-, q, reached, next⟩)
    · obtain ⟨cell, known, -⟩ :=
        Maze.isPassable_iff.mp (i.passable_of_reachable start explored reached)
      exact Option.isSome_of_eq_some known
    · exact Maze.isExplored_iff.mp explored q
        (i.passable_of_reachable start explored reached) p next

theorem Informed.oxygen_iff (i : Informed area c) (start : area .origin = .floor)
    (explored : c.maze.isExplored = true) :
    p ∈ c.maze.oxygenSystems ↔ area.Reachable p ∧ area p = .oxygen := by
  rw [Maze.mem_oxygenSystems]
  constructor
  · intro known
    exact ⟨(i.passable p (Maze.isPassable_iff.mpr ⟨_, known, nofun⟩)).1, i.cell_eq start known⟩
  · rintro ⟨reached, oxygen⟩
    obtain ⟨cell, known, -⟩ :=
      Maze.isPassable_iff.mp (i.passable_of_reachable (.of_floor start) explored reached)
    rw [known, ← i.cell_eq start known, oxygen]

theorem Informed.distance_eq (i : Informed area c) (start : area.Free .origin)
    (explored : c.maze.isExplored = true) (reached : area.Reachable p) :
    ∃ d, c.maze.distance .origin p = some d ∧ Apart area.Free .origin p d := by
  have same : ∀ {q n}, Walk c.maze.Open .origin n q ↔ Walk area.Free .origin n q := by
    intro q n
    constructor
    · exact fun w => w.imp fun _ known => i.free_of_passable start known
    · exact fun w => w.imp fun v _ => i.passable_of_reachable start explored ⟨_, v⟩
  obtain ⟨n, w⟩ := reached
  obtain ⟨d, apart⟩ := w.exists_apart
  refine ⟨d, ?_, apart⟩
  rw [Maze.distance_eq_some_iff (i.passable_of_reachable start explored ⟨0, .stay⟩)]
  simpa only [Apart, same] using apart

end Controller

namespace Survey

/-- A survey of an area whose starting point is plain floor is correct at any time, and complete
once it says so. -/
theorem exchange_maps_area (area : Area) (start : area .origin = .floor) (n : Nat) :
    let s := (exchange area)^[n] .start
    let maze := s.service.device.maze
    s.service.device.position = s.droid ∧
      (∀ p cell, maze.cellAt? p = some cell → area p = cell) ∧
      (maze.complete = true →
        (∀ p, (maze.cellAt? p).isSome = true ↔ area.InSight p) ∧
        (maze.oxygenSystems.head?.isSome = true ↔ ∃ p, area.Reachable p ∧ area p = .oxygen) ∧
        ∀ p, area.Reachable p →
          ∃ d, maze.distance .origin p = some d ∧ Apart area.Free .origin p d) := by
  have poised := poised_iterate area n
  have informed := (Controller.informed_iterate area n).next
  have before := Controller.complete_iterate area n
  intro s maze
  rw [← poised.device] at informed
  refine ⟨?_, fun p cell => informed.cell_eq start, fun complete => ?_⟩
  · rw [poised.droid, poised.device, Controller.position_next]
  · have finished : s.service.device.heading? = none := by
      rw [poised.device, Controller.heading?_next]
      simpa [maze, s, poised.device, Controller.complete_next, before] using complete
    have free := Area.Free.of_floor start
    have explored := informed.explored_of_over free finished
    refine ⟨fun p => informed.known_iff free explored, ?_,
      fun p => informed.distance_eq free explored⟩
    rw [List.isSome_head?, ne_eq, List.eq_nil_iff_forall_not_mem, not_forall_not]
    exact exists_congr fun p => informed.oxygen_iff start explored

/-- Two cells, the oxygen system in the second one. -/
def passage : Area := fun p =>
  if p = .origin then .floor else if p = ⟨1, 0⟩ then .oxygen else .wall

theorem exchange_maps_passage :
    let maze := ((exchange passage)^[8] .start).service.device.maze
    passage .origin = .floor ∧ maze.complete = true ∧
      (∀ p, (maze.cellAt? p).isSome = true ↔ passage.InSight p) ∧
      ∃ p, passage.Reachable p ∧ passage p = .oxygen := by
  intro maze
  have maps := exchange_maps_area passage rfl 8
  have complete : maze.complete = true := by decide +kernel
  have found : maze.oxygenSystems.head?.isSome = true := by decide +kernel
  obtain ⟨known, oxygen, -⟩ := maps.2.2 complete
  exact ⟨rfl, complete, known, oxygen.mp found⟩

end Survey

end Intcode.Droid
