import Intcode.Proofs.Droid.Mapping
import Mathlib.Algebra.BigOperators.Group.Finset.Piecewise
import Mathlib.Algebra.BigOperators.Group.List.Basic
import Mathlib.Algebra.GroupWithZero.Nat
import Mathlib.Algebra.Order.BigOperators.Group.Finset
import Mathlib.Data.Set.Finite.Lattice
import Mathlib.Order.Filter.AtTopBot.Finite

/-!
# The end of a survey

No quantity goes down with each move of a droid, so the argument is about a survey that never ends.
The droid is told infinitely often to go to one of finitely many points, hence it visits some point
without bound. A point that is visited without bound hands this on to its neighbours, unless they
turn out to be walls: from there the droid is always sent to the least visited neighbour. Every
point that it ever visits leads to the first one, so all of them are visited without bound, and all
their neighbours become known. But then the frontier test passes.
-/

namespace Intcode.Droid

theorem Area.Reachable.inSight {area : Area} {p q : Point} (reached : area.Reachable p)
    (next : q ∈ p.neighbours) : area.InSight q := by
  by_cases wall : area q = .wall
  · exact .inr ⟨wall, p, reached, next⟩
  · exact .inl (reached.move next wall)

theorem Area.finite_inSight {area : Area} (finite : {p | area.Reachable p}.Finite) :
    {p | area.InSight p}.Finite := by
  have around := finite.biUnion fun q _ => List.finite_toSet q.neighbours
  refine (finite.union around).subset fun p seen => ?_
  rcases seen with reached | ⟨-, q, reached, next⟩
  · exact .inl reached
  · exact .inr (Set.mem_biUnion reached next)

namespace Maze

/-- How often the droid has been at a point, and one more once it has run into a wall there. -/
def tally (m : Maze) (p : Point) : Nat := m.visitsAt p + if m.isWall p then 1 else 0

theorem tally_le_visitsAt (m : Maze) (p : Point) : m.tally p ≤ m.visitsAt p + 1 := by
  unfold tally
  split <;> omega

/-- How often the droid was sent to a neighbour of a point, up to a bound for each. -/
def crowd (m : Maze) (p : Point) (bound : Nat) : Nat :=
  (p.neighbours.map fun q => min (m.tally q) bound).sum

theorem crowd_le (m : Maze) (p : Point) (bound : Nat) : crowd m p bound ≤ 4 * bound := by
  have le := List.sum_le_card_nsmul (p.neighbours.map fun q => min (m.tally q) bound) bound
    (by simp)
  simpa [crowd, Point.neighbours, Heading.all] using le

end Maze

namespace Controller

variable {area : Area} {c : Controller} {h : Heading} {p q : Point}

/-- A move counts at the point that the droid was sent to. -/
theorem tally_pursue (chosen : c.heading? = some h) (p : Point) :
    (c.pursue area).maze.tally p =
      c.maze.tally p + if c.position + h.step = p then 1 else 0 := by
  have free := (heading?_spec chosen).1
  have read := cellAt?_observe c h (area (c.position + h.step)) p
  have often := visitsAt_observe c h (area (c.position + h.step)) p
  rw [pursue_of_heading chosen]
  simp only [Maze.tally, Maze.isWall, read, often]
  by_cases here : c.position + h.step = p
  · subst here
    simp only [Maze.isWall] at free
    by_cases wall : area (c.position + h.step) = .wall <;> simp [wall, free]
  · simp [here]

/-- What is known stays known. -/
theorem known_pursue (known : (c.maze.cellAt? p).isSome = true) :
    ((c.pursue area).maze.cellAt? p).isSome = true := by
  unfold pursue
  split
  · rw [cellAt?_observe]
    split
    · rfl
    · exact known
  · exact known

/-- A wall stays a wall, since the droid is not sent there again. -/
theorem isWall_pursue (wall : c.maze.isWall p = true) :
    (c.pursue area).maze.isWall p = true := by
  unfold pursue
  split
  · rename_i h chosen
    have elsewhere : c.position + h.step ≠ p := by
      rintro rfl
      rw [(heading?_spec chosen).1] at wall
      cases wall
    rwa [Maze.isWall_iff, cellAt?_observe, if_neg elsewhere, ← Maze.isWall_iff]
  · exact wall

theorem visitsAt_pursue (area : Area) (c : Controller) (p : Point) :
    (c.pursue area).maze.visitsAt p = c.maze.visitsAt p ∨
      (c.pursue area).position = p ∧ c.position ≠ p ∧
        (c.pursue area).maze.visitsAt p = c.maze.visitsAt p + 1 := by
  unfold pursue
  split
  · rename_i h chosen
    rw [visitsAt_observe, position_observe]
    by_cases here : c.position + h.step = p ∧ area (c.position + h.step) ≠ .wall
    · rw [if_pos here, if_neg here.2]
      exact .inr ⟨here.1, fun same => Point.step_ne p h (same ▸ here.1), rfl⟩
    · rw [if_neg here]
      exact .inl rfl
  · exact .inl rfl

theorem crowd_pursue_le (area : Area) (c : Controller) (p : Point) (bound : Nat) :
    c.maze.crowd p bound ≤ (c.pursue area).maze.crowd p bound := by
  cases chosen : c.heading? with
  | none => rw [pursue_of_none chosen]
  | some h =>
    refine List.sum_le_sum fun q _ => ?_
    rw [tally_pursue chosen]
    omega

/-- A droid at a point adds to the crowd around it, as it is sent to the least visited neighbour. -/
theorem crowd_pursue_lt (area : Area) {bound : Nat} (chosen : c.heading? = some h)
    (next : q ∈ c.position.neighbours) (free : c.maze.isWall q = false)
    (few : c.maze.visitsAt q < bound) :
    c.maze.crowd c.position bound < (c.pursue area).maze.crowd c.position bound := by
  obtain ⟨unwalled, least⟩ := heading?_spec chosen
  have fewer := least q next free
  refine List.sum_lt_sum _ _ (fun r _ => ?_)
    ⟨c.position + h.step, c.position.step_mem_neighbours h, ?_⟩
  · rw [tally_pursue chosen]
    omega
  · rw [tally_pursue chosen, if_pos rfl]
    simp only [Maze.tally, unwalled, Bool.false_eq_true, if_false]
    omega

def run (area : Area) (n : Nat) : Controller := (pursue area)^[n] {}

theorem run_succ (area : Area) (n : Nat) : run area (n + 1) = (run area n).pursue area :=
  Function.iterate_succ_apply' _ _ _

theorem known_run {m n : Nat} (le : m ≤ n) (known : ((run area m).maze.cellAt? p).isSome = true) :
    ((run area n).maze.cellAt? p).isSome = true := by
  induction n, le using Nat.le_induction with
  | base => exact known
  | succ n _ ih =>
    rw [run_succ]
    exact known_pursue ih

theorem isWall_run {m n : Nat} (le : m ≤ n) (wall : (run area m).maze.isWall p = true) :
    (run area n).maze.isWall p = true := by
  induction n, le using Nat.le_induction with
  | base => exact wall
  | succ n _ ih =>
    rw [run_succ]
    exact isWall_pursue ih

theorem visitsAt_run_mono (area : Area) (p : Point) :
    Monotone fun n => (run area n).maze.visitsAt p := by
  refine monotone_nat_of_le_succ fun n => ?_
  rw [run_succ]
  rcases visitsAt_pursue area (run area n) p with same | ⟨-, -, more⟩ <;> omega

/-- A point that is visited once more has been the droid's position since then. -/
theorem exists_position {m n : Nat}
    (more : (run area m).maze.visitsAt p < (run area n).maze.visitsAt p) :
    ∃ k, m ≤ k ∧ (run area k).position = p := by
  by_contra never
  have le : m ≤ n := by
    by_contra lt
    exact absurd (visitsAt_run_mono area p (show n ≤ m by omega)) (by simpa using more)
  refine absurd more (Nat.not_lt.mpr ?_)
  clear more
  induction n, le using Nat.le_induction with
  | base => exact le_rfl
  | succ n le ih =>
    rw [run_succ]
    rcases visitsAt_pursue area (run area n) p with same | ⟨here, -⟩
    · rw [same]
      exact ih
    · rw [← run_succ] at here
      exact absurd ⟨n + 1, by omega, here⟩ never

/-- A direction is chosen in each exchange. -/
def Endless (area : Area) : Prop := ∀ n, ∃ h, (run area n).heading? = some h

/-- The point is visited without bound. -/
def Busy (area : Area) (p : Point) : Prop := ∀ bound, ∃ n, bound < (run area n).maze.visitsAt p

def Walled (area : Area) (p : Point) : Prop := ∃ n, (run area n).maze.isWall p = true

/-- The droid cannot be at a point more often than it was sent away from there. -/
theorem visitsAt_le_crowd {bound : Nat} (endless : Endless area) (next : q ∈ p.neighbours)
    (free : ¬Walled area q) (few : ∀ n, (run area n).maze.visitsAt q < bound) (n : Nat) :
    (run area n).maze.visitsAt p ≤
      (run area n).maze.crowd p bound + if (run area n).position = p then 1 else 0 := by
  induction n with
  | zero =>
    show Maze.start.visitsAt p ≤ _ + if Point.origin = p then 1 else 0
    rw [Maze.visitsAt_start]
    omega
  | succ n ih =>
    rw [run_succ]
    have more := crowd_pursue_le area (run area n) p bound
    obtain ⟨h, chosen⟩ := endless n
    by_cases here : (run area n).position = p
    · have unwalled : (run area n).maze.isWall q = false := by
        simpa using fun wall => free ⟨n, wall⟩
      have sent := crowd_pursue_lt area chosen (here ▸ next) unwalled (few n)
      rw [here] at sent
      rw [if_pos here] at ih
      rcases visitsAt_pursue area (run area n) p with same | ⟨-, away, -⟩
      · omega
      · exact absurd here away
    · rw [if_neg here] at ih
      rcases visitsAt_pursue area (run area n) p with same | ⟨there, -, once⟩
      · omega
      · rw [if_pos there]
        omega

/-- A point that is visited without bound hands this on to its neighbours. -/
theorem Busy.neighbour (busy : Busy area p) (endless : Endless area) (next : q ∈ p.neighbours) :
    Walled area q ∨ Busy area q := by
  by_contra neither
  obtain ⟨free, calm⟩ := not_or.mp neither
  simp only [Busy, not_forall, not_exists, Nat.not_lt] at calm
  obtain ⟨bound, few⟩ := calm
  obtain ⟨n, many⟩ := busy (4 * (bound + 1) + 1)
  have sent := visitsAt_le_crowd endless next free (fun n => Nat.lt_add_one_of_le (few n)) n
  have room := (run area n).maze.crowd_le p (bound + 1)
  split at sent <;> omega

/-- Each exchange counts at a point in sight. -/
theorem le_sum_tally {sight : Finset Point} (endless : Endless area)
    (covers : ∀ p, area.InSight p → p ∈ sight) (n : Nat) :
    n ≤ ∑ p ∈ sight, (run area n).maze.tally p := by
  induction n with
  | zero => exact Nat.zero_le _
  | succ n ih =>
    obtain ⟨h, chosen⟩ := endless n
    have target : (run area n).position + h.step ∈ sight :=
      covers _ ((informed_iterate area n).reached.inSight (Point.step_mem_neighbours _ h))
    simp only [run_succ, tally_pursue chosen, Finset.sum_add_distrib, Finset.sum_ite_eq, target,
      if_true]
    omega

theorem exists_busy {sight : Finset Point} (endless : Endless area)
    (covers : ∀ p, area.InSight p → p ∈ sight) : ∃ p, Busy area p := by
  by_contra calm
  simp only [Busy, not_exists, not_forall, Nat.not_lt] at calm
  choose bound few using calm
  have many := le_sum_tally endless covers (∑ p ∈ sight, (bound p + 1) + 1)
  have le : ∀ n, ∑ p ∈ sight, (run area n).maze.tally p ≤ ∑ p ∈ sight, (bound p + 1) :=
    fun n => Finset.sum_le_sum fun p _ =>
      (Maze.tally_le_visitsAt _ p).trans (Nat.succ_le_succ (few p n))
  have := le (∑ p ∈ sight, (bound p + 1) + 1)
  omega

/-- Every point that the droid has been at is visited without bound, unless it is a wall after
all: this can only be the starting point. -/
theorem busy_of_passable {u : Point} (endless : Endless area) (busy : Busy area u) {m : Nat}
    (known : (run area m).maze.isPassable p = true) : Walled area p ∨ Busy area p := by
  obtain ⟨n, more⟩ := busy ((run area m).maze.visitsAt u)
  obtain ⟨k, le, rfl⟩ := exists_position more
  obtain ⟨_, before, -⟩ := Maze.isPassable_iff.mp known
  obtain ⟨cell, still⟩ :=
    Option.isSome_iff_exists.mp (known_run le (Option.isSome_of_eq_some before))
  by_cases wall : cell = .wall
  · exact .inl ⟨k, Maze.isWall_iff.mpr (wall ▸ still)⟩
  · have informed := informed_iterate area k
    obtain ⟨-, _, w⟩ := informed.passable p (Maze.isPassable_iff.mpr ⟨cell, still, wall⟩)
    refine w.spread (fun q => Walled area q ∨ Busy area q) (.inr busy) ?_
    rintro a b next free (⟨n, wall⟩ | busy)
    · exact absurd ((informed_iterate area n).walls b wall).1 free
    · exact busy.neighbour endless (Point.neighbours_symm next)

/-- Of finitely many points, everything that will ever hold of them holds from some time on. -/
theorem eventually_settled {P : Nat → Point → Prop} (mono : ∀ {p m n}, m ≤ n → P m p → P n p)
    {points : Set Point} (finite : points.Finite) :
    ∀ᶠ n in Filter.atTop, ∀ p ∈ points, (∃ m, P m p) → P n p := by
  rw [Filter.eventually_all_finite finite]
  intro p _
  by_cases ever : ∃ m, P m p
  · obtain ⟨m, holds⟩ := ever
    exact (Filter.eventually_ge_atTop m).mono fun n le _ => mono le holds
  · exact .of_forall fun n holds => absurd holds ever

/-- From some exchange on, the controller of a survey without an end would learn nothing more, and
then the frontier test passes. -/
theorem not_endless (finite : {p | area.Reachable p}.Finite) : ¬Endless area := by
  intro endless
  have sight := Area.finite_inSight finite
  have covers : ∀ p, area.InSight p → p ∈ sight.toFinset := by simp
  obtain ⟨u, busy⟩ := exists_busy endless covers
  obtain ⟨n, known, walls⟩ :=
    ((eventually_settled (P := fun n p => ((run area n).maze.cellAt? p).isSome = true)
      known_run sight).and
      (eventually_settled (P := fun n p => (run area n).maze.isWall p = true)
        isWall_run sight)).exists
  obtain ⟨h, chosen⟩ := endless n
  have informed := informed_iterate area n
  have explored : (run area n).maze.isExplored = true := by
    refine Maze.isExplored_iff.mpr fun p passable q next => ?_
    have reached := (informed.passable p passable).1
    refine known q (reached.inSight next) ?_
    rcases busy_of_passable endless busy passable with walled | busy
    · obtain ⟨cell, here, notWall⟩ := Maze.isPassable_iff.mp passable
      have wall := Maze.isWall_iff.mp (walls p (.inl reached) walled)
      rw [here] at wall
      exact absurd (Option.some.inj wall) notWall
    · rcases busy.neighbour endless next with ⟨m, wall⟩ | busy
      · exact ⟨m, by rw [Maze.isWall_iff.mp wall]; rfl⟩
      · obtain ⟨m, often⟩ := busy 0
        exact ⟨m, (informed_iterate area m).visited q often⟩
  rw [heading?, if_pos explored] at chosen
  cases chosen

end Controller

namespace Survey

/-- As long as a direction is chosen, each exchange has the droid obey a command. -/
theorem length_told {area : Area} {n : Nat}
    (busy : ∀ m < n, (Controller.run area m).heading? ≠ none) :
    ((exchange area)^[n] start).service.told.length = n := by
  induction n with
  | zero =>
    unfold start
    split <;> rfl
  | succ n ih =>
    obtain ⟨h, chosen⟩ := Option.ne_none_iff_exists'.mp (busy n n.lt_succ_self)
    rw [Function.iterate_succ_apply', ((poised_iterate area n).exchange_of_heading chosen).2,
      ih fun m lt => busy m (Nat.lt_succ_of_lt lt)]

/-- A survey of an area of which only finitely many points can be reached comes to its end: after
some number of commands that the droid has obeyed, no further command is chosen, the map is complete
and the wire is closed, with nothing left on it. What is known then is what is in sight, unless the
droid has started within a wall. -/
theorem exchange_ends (area : Area) (finite : {p | area.Reachable p}.Finite) :
    ∃ n, let s := (exchange area)^[n] .start
      let maze := s.service.device.maze
      s.service.told.length = n ∧
        s.service.device.next.1 = none ∧
        maze.complete = true ∧
        s.service.input.closed = true ∧ s.service.input.toList = [] ∧
        (area.Free .origin → ∀ p, (maze.cellAt? p).isSome = true ↔ area.InSight p) := by
  have ends : ∃ n, (Controller.run area n).heading? = none := by
    by_contra never
    refine Controller.not_endless finite fun n => ?_
    exact Option.ne_none_iff_exists'.mp fun finished => never ⟨n, finished⟩
  refine ⟨Nat.find ends, ?_⟩
  have finished := Nat.find_spec ends
  have told := length_told fun m lt => Nat.find_min ends lt
  generalize Nat.find ends = n at finished told
  have poised := poised_iterate area n
  have closed := poised.closed
  have commands := poised.commands
  have last := Controller.next_of_none finished
  have informed := Controller.informed_iterate area n
  unfold Controller.run at last finished
  rw [last] at closed commands
  have device := poised.device.trans (congrArg Prod.snd last)
  refine ⟨told, ?_, ?_, closed, commands, fun free p => ?_⟩
  · rw [poised.device, Controller.next_of_none]
    rw [Controller.heading?_next, finished]
  · rw [device]
  · rw [device]
    exact informed.known_iff free (informed.explored_of_over free finished)

theorem exchange_ends_in_passage :
    {p | passage.Reachable p}.Finite ∧
      ∃ n, let s := (exchange passage)^[n] .start
        let maze := s.service.device.maze
        s.service.told.length = n ∧
          s.service.device.next.1 = none ∧
          maze.complete = true ∧
          s.service.input.closed = true ∧ s.service.input.toList = [] ∧
          ∀ p, (maze.cellAt? p).isSome = true ↔ passage.InSight p := by
  have start : passage.Free .origin := .of_floor rfl
  have finite : {p | passage.Reachable p}.Finite := by
    refine (Set.toFinite {Point.origin, ⟨1, 0⟩}).subset fun p reached => ?_
    have free := start.of_reachable reached
    unfold Area.Free passage at free
    split at free
    · rename_i first
      exact .inl first
    · split at free
      · rename_i second
        exact .inr second
      · exact absurd rfl free
  obtain ⟨n, told, silent, complete, closed, empty, known⟩ := exchange_ends passage finite
  exact ⟨finite, n, told, silent, complete, closed, empty, known start⟩

end Survey

end Intcode.Droid
