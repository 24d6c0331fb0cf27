import Intcode.Proofs.Channel.Contents
import Intcode.Proofs.Machine.Faults

/-!
# Steps on wires

A machine that takes its input from one wire and puts its output on another can do one of five
things in a step, as long as the second wire is open. Two of them leave everything as it is: it
waits for input, or it finds that there will be no more. The latter is the only way in which it can
lack a connection.
-/

namespace Intcode

namespace Rig

/-- What a step on two wires can be, if the second accepts values. -/
inductive OnWires (r : Rig Wire Wire) : Stepped Wire Wire → Prop
  | computes (h : r.machine.demand = .nothing) :
      OnWires r ⟨(r.machine.turn 0).1, ⟨(r.machine.turn 0).2, r.input, r.output, r.notes 0⟩, none⟩
  | takes {v : Word} {w : Wire} (h : r.machine.demand = .word)
      (next : r.input.toList = v :: w.toList) (same : w.closed = r.input.closed) :
      OnWires r ⟨(r.machine.turn v).1, ⟨(r.machine.turn v).2, w, r.output, r.notes v⟩,
        some (.received v)⟩
  | puts {v : Word} {w : Wire} (h : r.machine.demand = .room v)
      (appended : w.toList = r.output.toList ++ [v]) (accepts : w.closed = false) :
      OnWires r ⟨(r.machine.turn 0).1, ⟨(r.machine.turn 0).2, r.input, w, r.notes 0⟩,
        some (.sent v)⟩
  | waits (h : r.machine.demand = .word) (empty : r.input.toList = [])
      (more : r.input.closed = false) : OnWires r ⟨.error .blocked, r, none⟩
  | starves (h : r.machine.demand = .word) (empty : r.input.toList = [])
      (shut : r.input.closed = true) : OnWires r ⟨.error (.fault .notConnected), r, none⟩

theorem step_onWires (r : Rig Wire Wire) (accepts : r.output.closed = false) :
    OnWires r r.step := by
  cases demand : r.machine.demand with
  | nothing =>
    rw [step_of_nothing r demand]
    exact .computes demand
  | word =>
    rw [step_of_word r demand]
    cases contents : r.input.toList with
    | nil =>
      rw [Wire.take_of_nil contents]
      cases closed : r.input.closed with
      | false => exact .waits demand contents closed
      | true => exact .starves demand contents closed
    | cons v rest =>
      obtain ⟨w, taken, rfl, same⟩ := Wire.take_of_cons contents
      rw [taken]
      exact .takes demand contents same
  | room v =>
    rw [step_of_room r demand]
    obtain ⟨w, given, appended, stays⟩ := Wire.put_of_open accepts v
    rw [given]
    exact .puts demand appended stays

/-- A step that waits changes nothing. -/
theorem OnWires.waiting {r : Rig Wire Wire} {s : Stepped Wire Wire} (onWires : OnWires r s)
    (waits : s.result = .error .blocked) : s = ⟨.error .blocked, r, none⟩ := by
  cases onWires with
  | computes h => exact absurd waits (Machine.turn_ne_blocked _ _)
  | takes h next same => exact absurd waits (Machine.turn_ne_blocked _ _)
  | puts h appended accepts => exact absurd waits (Machine.turn_ne_blocked _ _)
  | waits h empty more => rfl
  | starves h empty shut => cases waits

/-- A step that waits has nothing to take, and there may be something later. -/
theorem OnWires.lacking {r : Rig Wire Wire} {s : Stepped Wire Wire} (onWires : OnWires r s)
    (waits : s.result = .error .blocked) :
    r.machine.demand = .word ∧ r.input.toList = [] ∧ r.input.closed = false := by
  cases onWires with
  | computes h => exact absurd waits (Machine.turn_ne_blocked _ _)
  | takes h next same => exact absurd waits (Machine.turn_ne_blocked _ _)
  | puts h appended accepts => exact absurd waits (Machine.turn_ne_blocked _ _)
  | waits h empty more => exact ⟨h, empty, more⟩
  | starves h empty shut => cases waits

/-- Wires do not crash a machine. -/
theorem OnWires.crashing {r : Rig Wire Wire} {s : Stepped Wire Wire} (onWires : OnWires r s)
    (crashes : s.result = .error .crashed) : s.rig.machine.BrokenDown := by
  cases onWires with
  | computes h => exact Machine.turn_crashed _ crashes
  | takes h next same => exact Machine.turn_crashed _ crashes
  | puts h appended accepts => exact Machine.turn_crashed _ crashes
  | waits h empty more => cases crashes
  | starves h empty shut => cases crashes

theorem OnWires.quiet {r : Rig Wire Wire} {s : Stepped Wire Wire} (onWires : OnWires r s)
    (waits : s.result = .error .blocked) : s.traffic = none := by
  rw [onWires.waiting waits]

theorem OnWires.said {r : Rig Wire Wire} {s : Stepped Wire Wire} (onWires : OnWires r s) :
    s.rig.output.toList = r.output.toList ++ Traffic.words s.traffic := by
  cases onWires with
  | puts h appended accepts => exact appended
  | computes h => exact (List.append_nil _).symm
  | takes h next same => exact (List.append_nil _).symm
  | waits h empty more => exact (List.append_nil _).symm
  | starves h empty shut => exact (List.append_nil _).symm

theorem OnWires.accepting {r : Rig Wire Wire} {s : Stepped Wire Wire} (onWires : OnWires r s)
    (accepts : r.output.closed = false) : s.rig.output.closed = false := by
  cases onWires with
  | puts h appended still => exact still
  | computes h => exact accepts
  | takes h next same => exact accepts
  | waits h empty more => exact accepts
  | starves h empty shut => exact accepts

/-- A machine lacks a connection only if its input is closed. -/
theorem OnWires.starving {r : Rig Wire Wire} {s : Stepped Wire Wire} (onWires : OnWires r s)
    (starves : s.result = .error (.fault .notConnected)) : r.input.closed = true := by
  cases onWires with
  | computes h => exact absurd starves (Machine.turn_ne_notConnected _ _)
  | takes h next same => exact absurd starves (Machine.turn_ne_notConnected _ _)
  | puts h appended accepts => exact absurd starves (Machine.turn_ne_notConnected _ _)
  | waits h empty more => cases starves
  | starves h empty shut => exact shut

/-- A step neither opens nor closes its input. -/
theorem closed_step {ω : Type} [Channel ω] (r : Rig Wire ω) :
    r.step.rig.input.closed = r.input.closed := by
  cases demand : r.machine.demand with
  | nothing => rw [step_of_nothing r demand]
  | word =>
    have same := Wire.closed_take r.input
    rw [step_of_word r demand]
    revert same
    obtain ⟨got, w⟩ := Channel.take r.input
    intro same
    cases got with
    | error s => exact same
    | ok v => exact same
  | room v =>
    rw [step_of_room r demand]
    obtain ⟨accepted, output⟩ := Channel.put r.output v
    cases accepted <;> rfl

/-- A step takes nothing off the tape that it puts its output on. -/
theorem said_step {ι : Type} [Channel ι] (r : Rig ι Tape) :
    r.output.toList <+: r.step.rig.output.toList := by
  cases demand : r.machine.demand with
  | nothing =>
    refine ⟨[], ?_⟩
    rw [step_of_nothing r demand, List.append_nil]
  | word =>
    rw [step_of_word r demand]
    obtain ⟨got, input⟩ := Channel.take r.input
    cases got <;> exact List.prefix_refl _
  | room v =>
    rw [step_of_room r demand]
    exact ⟨[v], (Tape.toList_push r.output v).symm⟩

end Rig

end Intcode
