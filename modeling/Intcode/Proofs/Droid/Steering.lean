import Intcode.Proofs.Chart
import Intcode.Proofs.Droid.Mapping

/-!
# Steering by any answers

Nothing is supposed here of the droid: its statuses need not be true, may come when none is awaited,
and the controller may be asked for a command in between. A status of such a droid can turn a place
where the controller has been into a wall, even the starting point, but never the place where it is.
-/

namespace Intcode

namespace Droid

theorem Maze.total_visit (m : Maze) (p : Point) :
    (m.visit p).visits.total = m.visits.total + 1 := by
  have counted := m.visits.total_insert p (m.visitsAt p + 1)
  have before : m.visits.getD p 0 = m.visitsAt p := rfl
  show Chart.total (m.visits.insert p (m.visitsAt p + 1)) = m.visits.total + 1
  omega

theorem Controller.total_observe (c : Controller) (h : Heading) (cell : Cell) :
    (c.observe h cell).maze.visits.total =
      c.maze.visits.total + if cell = .wall then 0 else 1 := by
  cases cell with
  | wall => rfl
  | floor | oxygen => exact Maze.total_visit _ _

namespace Controller

/-- Choosing a command changes no entry of the map. -/
theorem maze_next (c : Controller) :
    c.next.2.maze = { c.maze with complete := c.next.2.maze.complete } := by
  cases chosen : c.heading? with
  | some h => rw [next_of_heading chosen]
  | none => rw [next_of_none chosen]

theorem cellOf_eq (w : Word) :
    (cellOf w).1 = if w = 1 then .floor else if w = 2 then .oxygen else .wall := by
  rw [cellOf]
  split
  · rename_i zero
    subst zero
    rfl
  · split
    · rfl
    · split <;> rfl

theorem cellOf_eq_wall_iff (w : Word) : (cellOf w).1 = .wall ↔ ¬(w = 1 ∨ w = 2) := by
  rw [cellOf_eq]
  split
  · simp [*]
  · split <;> simp [*]

end Controller

/-- What a controller is called for: to take a status, or to choose a command once more. -/
inductive Call where
  | status (w : Word)
  | next
  deriving DecidableEq, Repr

structure Helm where
  controller : Controller := {}
  commands : Wire := {}

namespace Helm

variable {s : Helm} {a : Call} {h : Heading} {w : Word} {n : Nat}

def call (s : Helm) : Call → Option Word × Helm
  | .status w =>
    match Device.respond s.controller w with
    | ⟨controller, answer, hangsUp, _⟩ =>
      let command := match answer with | .reply v => some v | .silent | .crash => none
      let commands := if hangsUp then Channel.close s.commands else s.commands
      (command, { controller, commands })
  | .next =>
    match s.controller.next with
    | (some w, controller) => (some w, { s with controller })
    | (none, controller) => (none, { controller, commands := Channel.close s.commands })

def after (s : Helm) (calls : List Call) : Helm := calls.foldl (fun s a => (s.call a).2) s

/-- The number of calls by which the controller comes to another place. -/
def moves (s : Helm) : List Call → Nat
  | [] => 0
  | a :: calls =>
    let t := (s.call a).2
    (if t.controller.position = s.controller.position then 0 else 1) + t.moves calls

theorem call_next_of_heading (chosen : s.controller.heading? = some h) :
    s.call .next = (some (command h),
      { s with controller := { s.controller with moving := some h } }) := by
  simp only [call, Controller.next_of_heading chosen]

theorem call_next_of_none (finished : s.controller.heading? = none) :
    s.call .next = (none,
      { controller := { s.controller with maze := { s.controller.maze with complete := true }
                                          moving := none }
        commands := Channel.close s.commands }) := by
  simp only [call, Controller.next_of_none finished]

theorem call_status_of_none (still : s.controller.moving = none) (w : Word) :
    s.call (.status w) = (none, s) := by
  simp only [call, Device.respond, still]
  rfl

theorem controller_call_next (s : Helm) : (s.call .next).2.controller = s.controller.next.2 := by
  cases chosen : s.controller.heading? with
  | some h => rw [call_next_of_heading chosen, Controller.next_of_heading chosen]
  | none => rw [call_next_of_none chosen, Controller.next_of_none chosen]

/-- The state after what was found ahead is entered, before the next command is chosen. -/
def observe (s : Helm) (h : Heading) (w : Word) : Helm :=
  { s with controller := s.controller.observe h (Controller.cellOf w).1 }

theorem call_status_of_moving (moving : s.controller.moving = some h) (w : Word) :
    s.call (.status w) = (s.observe h w).call .next := by
  simp only [call, Device.respond, moving, observe]
  rcases (s.controller.observe h (Controller.cellOf w).1).next with ⟨_ | v, c⟩ <;> rfl

structure Kept (s : Helm) (n : Nat) : Prop where
  standing : s.controller.maze.isPassable s.controller.position = true
  ahead : ∀ h, s.controller.moving = some h →
    s.controller.maze.isWall (s.controller.position + h.step) = false
  visited : s.controller.maze.visits.total = n + 1
  ended : s.controller.maze.complete = true →
    s.controller.heading? = none ∧ s.controller.moving = none
  closed : s.commands.closed = s.controller.maze.complete

theorem kept_start : Kept {} 0 where
  standing := rfl
  ahead := nofun
  visited := rfl
  ended := nofun
  closed := rfl

theorem Kept.incomplete (kept : Kept s n) (moving : s.controller.moving = some h) :
    s.controller.maze.complete = false := by
  cases complete : s.controller.maze.complete with
  | false => rfl
  | true =>
    rw [(kept.ended complete).2] at moving
    cases moving

theorem Kept.next (kept : Kept s n) : Kept (s.call .next).2 n := by
  cases chosen : s.controller.heading? with
  | some h =>
    rw [call_next_of_heading chosen]
    refine ⟨kept.standing, ?_, kept.visited, fun complete => ?_, kept.closed⟩
    · rintro k ⟨⟩
      exact (Controller.heading?_spec chosen).1
    · have finished := (kept.ended complete).1
      rw [chosen] at finished
      cases finished
  | none =>
    rw [call_next_of_none chosen]
    exact ⟨kept.standing, nofun, kept.visited, fun _ => ⟨chosen, rfl⟩, rfl⟩

/-- What becomes a wall is one step away from where the controller stands. -/
theorem Kept.observe (kept : Kept s n) (moving : s.controller.moving = some h) (w : Word) :
    Kept (s.observe h w) (n + if (Controller.cellOf w).1 = .wall then 0 else 1) := by
  have read := s.controller.cellAt?_observe h (Controller.cellOf w).1
  have here := s.controller.position_observe h (Controller.cellOf w).1
  have counted := s.controller.total_observe h (Controller.cellOf w).1
  have still := s.controller.complete_observe h (Controller.cellOf w).1
  have idle : (s.controller.observe h (Controller.cellOf w).1).moving = none := by
    cases (Controller.cellOf w).1 <;> rfl
  rw [kept.incomplete moving] at still
  refine ⟨?_, fun k next => ?_, ?_, fun complete => ?_, ?_⟩
  · apply Maze.isPassable_iff.mpr
    rw [Helm.observe, here, read]
    split
    · obtain ⟨cell, known, free⟩ := Maze.isPassable_iff.mp kept.standing
      rw [if_neg (Point.step_ne _ h)]
      exact ⟨cell, known, free⟩
    · rename_i free
      rw [if_pos rfl]
      exact ⟨_, rfl, free⟩
  · rw [Helm.observe, idle] at next
    cases next
  · rw [Helm.observe, counted, kept.visited]
    omega
  · rw [Helm.observe, still] at complete
    cases complete
  · rw [Helm.observe, still, kept.closed, kept.incomplete moving]

theorem position_call_next (s : Helm) :
    (s.call .next).2.controller.position = s.controller.position := by
  rw [controller_call_next, Controller.position_next]

theorem position_call_status (moving : s.controller.moving = some h) (w : Word) :
    (s.call (.status w)).2.controller.position =
      if w = 1 ∨ w = 2 then s.controller.position + h.step else s.controller.position := by
  rw [call_status_of_moving moving, position_call_next, Helm.observe, Controller.position_observe]
  simp only [Controller.cellOf_eq_wall_iff, ite_not]

/-- A status with a pending move counts as a move exactly if it says that the way is free. -/
theorem position_eq_iff (moving : s.controller.moving = some h) (w : Word) :
    (s.call (.status w)).2.controller.position = s.controller.position ↔
      (Controller.cellOf w).1 = .wall := by
  rw [position_call_status moving, Controller.cellOf_eq_wall_iff]
  split <;> rename_i said
  · exact iff_of_false (Point.step_ne _ h) (not_not.mpr said)
  · exact iff_of_true rfl said

theorem Kept.call (kept : Kept s n) (a : Call) :
    Kept (s.call a).2
      (n + if (s.call a).2.controller.position = s.controller.position then 0 else 1) := by
  cases a with
  | next =>
    rw [if_pos s.position_call_next]
    exact kept.next
  | status w =>
    cases moving : s.controller.moving with
    | none =>
      rw [call_status_of_none moving, if_pos rfl]
      exact kept
    | some h =>
      simp only [position_eq_iff moving]
      rw [call_status_of_moving moving]
      exact (kept.observe moving w).next

theorem Kept.after (kept : Kept s n) (calls : List Call) :
    Kept (s.after calls) (n + s.moves calls) := by
  induction calls generalizing s n with
  | nil => exact kept
  | cons a calls ih =>
    rw [moves, ← Nat.add_assoc]
    exact ih (kept.call a)

/-- A command that is given is pending. -/
theorem moving_of_command (given : (s.call a).1 = some w) :
    ∃ h, w = command h ∧ (s.call a).2.controller.moving = some h := by
  have chosen {s : Helm} (given : (s.call .next).1 = some w) :
      ∃ h, w = command h ∧ (s.call .next).2.controller.moving = some h := by
    cases chosen : s.controller.heading? with
    | none =>
      rw [call_next_of_none chosen] at given
      cases given
    | some h =>
      rw [call_next_of_heading chosen] at given ⊢
      exact ⟨h, (Option.some.inj given).symm, rfl⟩
  cases a with
  | next => exact chosen given
  | status v =>
    cases moving : s.controller.moving with
    | none =>
      rw [call_status_of_none moving] at given
      cases given
    | some h =>
      rw [call_status_of_moving moving] at given ⊢
      exact chosen given

/-- Once the survey is over, no call changes anything. -/
theorem Kept.call_of_complete (kept : Kept s n) (complete : s.controller.maze.complete = true)
    (a : Call) : s.call a = (none, s) := by
  obtain ⟨finished, still⟩ := kept.ended complete
  have closed := kept.closed.trans complete
  cases a with
  | status w => exact call_status_of_none still w
  | next =>
    rw [call_next_of_none finished]
    obtain ⟨⟨⟨cells, visits, done⟩, position, moving⟩, ⟨queue, shut⟩⟩ := s
    cases complete
    cases still
    cases closed
    rfl

theorem Kept.after_of_complete (kept : Kept s n) (complete : s.controller.maze.complete = true)
    (calls : List Call) : s.after calls = s := by
  induction calls with
  | nil => rfl
  | cons a calls ih =>
    have same : s.after (a :: calls) = (s.call a).2.after calls := rfl
    rw [same, kept.call_of_complete complete a, ih]

/-- What a status tells a controller that is about to move: what is one step ahead, and nothing
else. The controller moves there unless it is a wall. -/
structure Learns (c c' : Controller) (h : Heading) (w : Word) : Prop where
  ahead : c'.maze.cellAt? (c.position + h.step) =
    some (if w = 1 then .floor else if w = 2 then .oxygen else .wall)
  elsewhere : ∀ p, p ≠ c.position + h.step → c'.maze.cellAt? p = c.maze.cellAt? p
  position : c'.position = if w = 1 ∨ w = 2 then c.position + h.step else c.position
  moves : c'.position ≠ c.position ↔ w = 1 ∨ w = 2

theorem learns_of_moving (moving : s.controller.moving = some h) (w : Word) :
    Learns s.controller (s.call (.status w)).2.controller h w := by
  have read (p : Point) : (s.call (.status w)).2.controller.maze.cellAt? p =
      (s.observe h w).controller.maze.cellAt? p := by
    rw [call_status_of_moving moving, controller_call_next, Controller.maze_next]
    rfl
  refine ⟨?_, fun p away => ?_, position_call_status moving w, ?_⟩
  · rw [read, Helm.observe, Controller.cellAt?_observe, if_pos rfl, Controller.cellOf_eq]
  · rw [read, Helm.observe, Controller.cellAt?_observe, if_neg (Ne.symm away)]
  · rw [ne_eq, position_eq_iff moving, Controller.cellOf_eq_wall_iff, not_not]

structure Sound (s : Helm) (moves : Nat) : Prop where
  /-- The controller stands where it knows that no wall is. -/
  standing : s.controller.maze.isPassable s.controller.position = true
  /-- A pending move leads into no known wall. -/
  ahead : ∀ h, s.controller.moving = some h →
    s.controller.maze.isWall (s.controller.position + h.step) = false
  /-- A command that is given becomes the pending move and leads into no known wall. -/
  commands : ∀ a w t, s.call a = (some w, t) → ∃ h, w = command h ∧
    t.controller.moving = some h ∧ t.controller.maze.isWall (t.controller.position + h.step) = false
  learns : ∀ h w, s.controller.moving = some h →
    Learns s.controller (s.call (.status w)).2.controller h w
  /-- A status that is not awaited changes nothing. -/
  stray : ∀ w, s.controller.moving = none → s.call (.status w) = (none, s)
  /-- To ask for a command changes neither the place nor what is known of any place. -/
  asked : (s.call .next).2.controller.position = s.controller.position ∧
    (s.call .next).2.controller.maze.cells = s.controller.maze.cells ∧
    (s.call .next).2.controller.maze.visits = s.controller.maze.visits
  visits : s.controller.maze.visits.total = 1 + moves
  /-- The wire is closed as soon as the survey is over, and not before. -/
  closed : s.commands.closed = s.controller.maze.complete
  /-- After the end of the survey everything stays as it is, and no command is given. -/
  ended : s.controller.maze.complete = true →
    ∀ calls, s.after calls = s ∧ ∀ a, ((s.after calls).call a).1 = none

theorem moves_le_length (s : Helm) (calls : List Call) : s.moves calls ≤ calls.length := by
  induction calls generalizing s with
  | nil => exact Nat.le_refl 0
  | cons a calls ih =>
    have rest := ih (s.call a).2
    rw [moves, List.length_cons]
    split <;> omega

/-- A point is counted at most once for each call, hence 32 bits are enough for a count as long as
there are fewer calls than that. -/
theorem visitsAt_after_le (calls : List Call) (p : Point) :
    (({} : Helm).after calls).controller.maze.visitsAt p ≤ calls.length + 1 := by
  have visited := (kept_start.after calls).visited
  have moves := moves_le_length {} calls
  have one := (({} : Helm).after calls).controller.maze.visits.getD_le_total p
  rw [Maze.visitsAt]
  omega

/-- Whatever a controller is told, and whenever: it knows where it can stand, enters what it learns
where it learns it, and is over once it says so. No count exceeds the number of calls by more than
one. -/
theorem sound_after_any_calls (calls : List Call) :
    Sound (({} : Helm).after calls) (({} : Helm).moves calls) ∧
      ∀ p, (({} : Helm).after calls).controller.maze.visitsAt p ≤ calls.length + 1 := by
  refine ⟨?_, visitsAt_after_le calls⟩
  have kept := kept_start.after calls
  generalize ({} : Helm).after calls = s at kept ⊢
  rw [Nat.zero_add] at kept
  constructor
  case standing => exact kept.standing
  case ahead => exact kept.ahead
  case commands =>
    intro a w t answered
    obtain ⟨h, heads, moving⟩ := moving_of_command (congrArg Prod.fst answered)
    have free := (kept.call a).ahead h moving
    rw [answered] at moving free
    exact ⟨h, heads, moving, free⟩
  case learns => exact fun h w moving => learns_of_moving moving w
  case stray => exact fun w still => call_status_of_none still w
  case asked =>
    refine ⟨s.position_call_next, ?_, ?_⟩ <;> rw [controller_call_next, Controller.maze_next]
  case visits => exact kept.visited.trans (Nat.add_comm _ _)
  case closed => exact kept.closed
  case ended =>
    intro complete calls
    have same := kept.after_of_complete complete calls
    refine ⟨same, fun a => ?_⟩
    rw [same, kept.call_of_complete complete a]

/-- A droid that takes the way back from the controller: it answers its first command by a move and
all others by walls, at last also where it came from. -/
theorem sound_after_false_wall :
    let s := ({} : Helm).after (.next :: [1, 0, 0, 0].map Call.status)
    let t := (s.call (.status 0)).2
    s.controller.moving = some .west ∧ Learns s.controller t.controller .west 0 ∧
      t.controller.maze.isWall .origin = true ∧ t.controller.maze.visits.total = 2 ∧
      (∀ p, t.controller.maze.visitsAt p ≤ 7) ∧ t.controller.maze.complete = true ∧
      ∀ calls, t.after calls = t ∧ ∀ a, ((t.after calls).call a).1 = none := by
  intro s t
  obtain ⟨before, -⟩ := sound_after_any_calls (.next :: [1, 0, 0, 0].map Call.status)
  obtain ⟨after, few⟩ := sound_after_any_calls (.next :: [1, 0, 0, 0, 0].map Call.status)
  have moving : s.controller.moving = some .west := by decide +kernel
  have complete : t.controller.maze.complete = true := by decide +kernel
  have wall : t.controller.maze.isWall .origin = true := by decide +kernel
  exact ⟨moving, before.learns .west 0 moving, wall, after.visits, few, complete,
    after.ended complete⟩

end Helm

end Droid

end Intcode
