import Intcode.Droid.Controller
import Intcode.Proofs.Channel.Contents
import Intcode.Proofs.Device.Coroutine
import Intcode.Proofs.Droid.Maze
import Mathlib.Logic.Function.Iterate

/-!
# Surveys

A droid in an area of the plane, and the controller that answers it: in an exchange the droid takes
a command from the wire, obeys it and tells the status to the controller, which puts the next
command on the wire or hangs up. `Controller.pursue` is what an exchange does to a controller, told
without wire, commands and statuses.
-/

namespace Intcode.Droid

abbrev Area := Point → Cell

def Area.Free (area : Area) (p : Point) : Prop := area p ≠ .wall

/-- The points that can be walked to from the starting point. -/
def Area.Reachable (area : Area) (p : Point) : Prop := ∃ n, Walk area.Free .origin n p

/-- The answer of a droid that was told to move onto a cell. -/
def Cell.status : Cell → Word
  | wall => 0
  | floor => 1
  | oxygen => 2

def ordered (w : Word) : Heading :=
  if w = 1 then .north else if w = 2 then .south else if w = 3 then .west else .east

def Area.obey (area : Area) (p : Point) (w : Word) : Point × Word :=
  let q := p + (ordered w).step
  (if area q = .wall then p else q, (area q).status)

structure Survey where
  droid : Point
  service : Service Wire Controller

namespace Survey

/-- A survey with the first command on its way. -/
def start : Survey :=
  { droid := .origin
    service :=
      match ({} : Controller).next with
      | (some w, device) => { input := .ofList [w], device }
      | (none, device) => { input := ({} : Wire).close, device } }

/-- The droid obeys the next command, and the controller answers to that. Without a command nothing
happens. -/
def exchange (area : Area) (s : Survey) : Survey :=
  match Channel.take s.service.input with
  | (.ok w, input) =>
    match area.obey s.droid w with
    | (droid, status) => { droid, service := Service.serve { s.service with input } status }
  | (.error _, _) => s

end Survey

namespace Controller

def heading? (c : Controller) : Option Heading :=
  if c.maze.isExplored then none else c.maze.nextHeading c.position

/-- The controller after it has learned what is in the direction that it chooses. -/
def pursue (area : Area) (c : Controller) : Controller :=
  match c.heading? with
  | some h => c.observe h (area (c.position + h.step))
  | none => c

theorem next_of_heading {c : Controller} {h : Heading} (chosen : c.heading? = some h) :
    c.next = (some (command h), { c with moving := some h }) := by
  unfold heading? at chosen
  simp only [next, chosen]

theorem next_of_none {c : Controller} (finished : c.heading? = none) :
    c.next = (none, { c with maze := { c.maze with complete := true }, moving := none }) := by
  unfold heading? at finished
  simp only [next, finished]

@[simp] theorem position_next (c : Controller) : c.next.2.position = c.position := by
  cases chosen : c.heading? with
  | some h => rw [next_of_heading chosen]
  | none => rw [next_of_none chosen]

theorem heading?_spec {c : Controller} {h : Heading} (chosen : c.heading? = some h) :
    c.maze.isWall (c.position + h.step) = false ∧
      ∀ q ∈ c.position.neighbours, c.maze.isWall q = false →
        c.maze.visitsAt (c.position + h.step) ≤ c.maze.visitsAt q := by
  unfold heading? at chosen
  split at chosen
  · cases chosen
  · obtain ⟨free, least⟩ := Maze.nextHeading_some chosen
    refine ⟨free, fun q next => ?_⟩
    obtain ⟨k, rfl⟩ := Point.mem_neighbours.mp next
    exact least k

theorem heading?_next (c : Controller) : c.next.2.heading? = c.heading? := by
  cases chosen : c.heading? with
  | some h =>
    rw [next_of_heading chosen]
    exact chosen
  | none =>
    rw [next_of_none chosen]
    exact chosen

theorem complete_next (c : Controller) :
    c.next.2.maze.complete = (c.maze.complete || c.heading?.isNone) := by
  cases chosen : c.heading? with
  | some h =>
    rw [next_of_heading chosen]
    exact (Bool.or_false _).symm
  | none =>
    rw [next_of_none chosen]
    exact (Bool.or_true _).symm

@[simp] theorem complete_observe (c : Controller) (h : Heading) (cell : Cell) :
    (c.observe h cell).maze.complete = c.maze.complete := by
  cases cell <;> rfl

theorem complete_iterate (area : Area) (n : Nat) :
    ((pursue area)^[n] {}).maze.complete = false := by
  induction n with
  | zero => rfl
  | succ n ih =>
    rw [Function.iterate_succ_apply', pursue]
    split
    · rw [complete_observe, ih]
    · exact ih

theorem cellOf_status (cell : Cell) : cellOf cell.status = (cell, []) := by
  cases cell <;> rfl

theorem position_observe (c : Controller) (h : Heading) (cell : Cell) :
    (c.observe h cell).position = if cell = .wall then c.position else c.position + h.step := by
  cases cell <;> rfl

end Controller

theorem ordered_command (h : Heading) : ordered (command h) = h := by
  cases h <;> rfl

namespace Survey

/-- A survey between two exchanges: `c` is the controller before it chose where to go. -/
structure Poised (s : Survey) (c : Controller) : Prop where
  droid : s.droid = c.position
  device : s.service.device = c.next.2
  refusal : s.service.refusal = none
  commands : s.service.input.toList = c.next.1.toList
  closed : s.service.input.closed = c.next.1.isNone

theorem poised_start : Poised start {} := by
  unfold start
  split <;> rename_i e <;>
    exact ⟨rfl, by rw [e], rfl, by rw [e]; rfl, by rw [e]; rfl⟩

/-- What a controller says to a truthful answer. -/
theorem respond_status (c : Controller) (h : Heading) (cell : Cell) :
    Device.respond { c with moving := some h } cell.status =
      match (c.observe h cell).next with
      | (some w, device) => { device, answer := .reply w }
      | (none, device) => { device, answer := .silent, hangsUp := true } := by
  simp only [Device.respond, Controller.cellOf_status]
  rfl

/-- An exchange in which the droid is told where to go. -/
theorem Poised.exchange_of_heading {area : Area} {s : Survey} {c : Controller} {h : Heading}
    (p : Poised s c) (chosen : c.heading? = some h) :
    Poised (s.exchange area) (c.observe h (area (c.position + h.step))) ∧
      (s.exchange area).service.told.length = s.service.told.length + 1 := by
  have issued := Controller.next_of_heading chosen
  obtain ⟨droid, ⟨wire, device, told, refusal⟩⟩ := s
  obtain ⟨rfl, rfl, rfl, commands, closed⟩ := p
  rw [issued] at commands closed
  obtain ⟨input, taken, left, same⟩ := Wire.take_of_cons commands
  rw [closed] at same
  have moved := Controller.position_observe c h (area (c.position + h.step))
  simp only [exchange, taken, Area.obey, ordered_command, Service.serve, Option.isSome_none,
    Bool.false_eq_true, if_false, issued, respond_status]
  generalize c.observe h (area (c.position + h.step)) = c' at moved
  rcases after : c'.next with ⟨_ | w, device⟩
  · exact ⟨⟨moved.symm, by rw [after], rfl, by rw [after]; exact left, by rw [after]; rfl⟩,
      List.length_append⟩
  · obtain ⟨output, put, queued, still⟩ := Wire.put_of_open same w
    simp only [Service.answer, Bool.false_eq_true, if_false, put]
    refine ⟨⟨moved.symm, by rw [after], rfl, ?_, by rw [after]; exact still⟩, List.length_append⟩
    rw [after, queued, left]
    rfl

/-- Once no direction is chosen, nothing happens any more. -/
theorem Poised.exchange_of_none {area : Area} {s : Survey} {c : Controller}
    (p : Poised s c) (finished : c.heading? = none) : s.exchange area = s := by
  have commands := p.commands
  rw [Controller.next_of_none finished] at commands
  simp only [exchange, Wire.take_of_nil commands]

theorem Poised.exchange {area : Area} {s : Survey} {c : Controller} (p : Poised s c) :
    Poised (s.exchange area) (c.pursue area) := by
  unfold Controller.pursue
  split <;> rename_i chosen
  · exact (p.exchange_of_heading chosen).1
  · rw [p.exchange_of_none chosen]
    exact p

/-- A survey follows its controller. -/
theorem poised_iterate (area : Area) (n : Nat) :
    Poised ((exchange area)^[n] start) ((Controller.pursue area)^[n] {}) := by
  induction n with
  | zero => exact poised_start
  | succ n ih =>
    rw [Function.iterate_succ_apply', Function.iterate_succ_apply']
    exact ih.exchange

end Survey

end Intcode.Droid
