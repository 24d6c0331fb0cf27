import Intcode.Proofs.Machine.Simulation
import Intcode.Proofs.Machine.Wired

/-!
# Tapes and wires are interchangeable

A machine that reads a tape and one that reads a closed wire with the same values on it do the same
at every step: they have the same registers and the same memory, put the same values and leave the
same ones unread. The one difference is the fault at the end of the input, where a tape is exhausted
and a wire not connected.
-/

namespace Intcode

/-- Why a machine stops on wires where, for the given reason, it stops on tapes. -/
def Stop.onWires : Stop → Stop
  | .fault .inputExhausted => .fault .notConnected
  | .fault f => .fault f
  | .blocked => .blocked
  | .crashed => .crashed

theorem Stop.onWires_of_intrinsic {s : Stop} (own : s.Intrinsic) : s.onWires = s := by
  cases s with
  | fault f => cases f <;> first | rfl | cases own
  | blocked => rfl
  | crashed => rfl

/-- By itself a machine stops for the same reasons on wires as on tapes. -/
theorem Machine.turn_onWires (m : Machine) (received : Word) :
    (m.turn received).1.mapError Stop.onWires = (m.turn received).1 := by
  cases result : (m.turn received).1 with
  | ok progress => rfl
  | error s => exact congrArg Except.error (Stop.onWires_of_intrinsic (m.turn_stop result))

namespace Rig

/-- A machine on tapes and the same machine on wires that hold the same values. Nobody puts any more
on the wire that it reads, and the one that it writes is open. -/
structure Interchanges (r : Rig Tape Tape) (r' : Rig Wire Wire) : Prop where
  machine : r'.machine = r.machine
  trace : r'.trace = r.trace
  input : r'.input.toList = r.input.toList
  output : r'.output.toList = r.output.toList
  shut : r'.input.closed = true
  accepts : r'.output.closed = false

variable {r : Rig Tape Tape} {r' : Rig Wire Wire}

/-- The two machines make the same step, or both are at the end of their input. -/
theorem Interchanges.step (same : r.Interchanges r') :
    r'.step.result = r.step.result.mapError Stop.onWires ∧ r'.step.traffic = r.step.traffic ∧
      r.step.rig.Interchanges r'.step.rig := by
  obtain ⟨m, input, output, trace⟩ := r
  obtain ⟨m', input', output', trace'⟩ := r'
  obtain ⟨rfl, rfl, inputs, outputs, shut, accepts⟩ := same
  dsimp only at inputs outputs shut accepts
  cases demand : m'.demand with
  | nothing =>
    rw [step_of_nothing _ demand, step_of_nothing _ demand]
    exact ⟨(m'.turn_onWires 0).symm, rfl, rfl, rfl, inputs, outputs, shut, accepts⟩
  | word =>
    rw [step_of_word _ demand, step_of_word _ demand]
    cases contents : input.toList with
    | nil =>
      have exhausted := Tape.take_of_nil contents
      have starved := Wire.take_of_nil (inputs.trans contents)
      simp only [shut, if_true] at starved
      rw [exhausted, starved]
      exact ⟨rfl, rfl, rfl, rfl, inputs, outputs, shut, accepts⟩
    | cons v rest =>
      obtain ⟨t, fromTape, left⟩ := Tape.take_of_cons contents
      obtain ⟨w, fromWire, left', still⟩ := Wire.take_of_cons (inputs.trans contents)
      rw [fromTape, fromWire]
      exact ⟨(m'.turn_onWires v).symm, rfl, rfl, rfl, left'.trans left.symm, outputs,
        still.trans shut, accepts⟩
  | room v =>
    obtain ⟨w, given, appended, stays⟩ := Wire.put_of_open accepts v
    rw [step_of_room _ demand, step_of_room _ demand]
    simp only [given]
    refine ⟨(m'.turn_onWires 0).symm, rfl, rfl, rfl, inputs, ?_, shut, stays⟩
    calc w.toList = output'.toList ++ [v] := appended
      _ = output.toList ++ [v] := by rw [outputs]
      _ = (output.push v).toList := (Tape.toList_push output v).symm

def shownOnWires (shown : Shown) : Shown := (shown.1.mapError Stop.onWires, shown.2)

theorem Interchanges.watch (same : r.Interchanges r') (n : Nat) :
    (watch advance n r').1 = (watch advance n r).1.map shownOnWires ∧
      (watch advance n r).2.Interchanges (watch advance n r').2 := by
  induction n generalizing r r' with
  | zero => exact ⟨rfl, same⟩
  | succ n ih =>
    obtain ⟨results, traffic, next⟩ := same.step
    obtain ⟨later, last⟩ := ih next
    refine ⟨?_, last⟩
    exact List.cons_eq_cons.mpr ⟨Prod.ext results traffic, later⟩

theorem Interchanges.run (same : r.Interchanges r') (n : Nat) :
    (r'.run n).1 = (r.run n).1.map (Except.mapError Stop.onWires) ∧
      (r.run n).2.Interchanges (r'.run n).2 := by
  induction n generalizing r r' with
  | zero => exact ⟨rfl, same⟩
  | succ n ih =>
    obtain ⟨results, -, next⟩ := same.step
    simp only [Rig.run]
    revert results next
    obtain ⟨result, after, traffic⟩ := r.step
    obtain ⟨result', after', traffic'⟩ := r'.step
    intro results next
    dsimp only at results next
    subst results
    cases result with
    | error s => exact ⟨rfl, next⟩
    | ok progress =>
      cases progress with
      | halted => exact ⟨congrArg (some ∘ Except.ok ∘ Machine.haltState) next.machine, next⟩
      | running => exact ih next

/-- A machine on tapes stops by itself or at the end of its input. -/
theorem stop_on_tapes {s : Stop} (failed : r.step.result = .error s) :
    s.Intrinsic ∨ s = .fault .inputExhausted := by
  cases demand : r.machine.demand with
  | nothing =>
    rw [step_of_nothing r demand] at failed
    exact .inl (r.machine.turn_stop failed)
  | word =>
    rw [step_of_word r demand] at failed
    cases contents : r.input.toList with
    | nil =>
      rw [Tape.take_of_nil contents] at failed
      exact .inr (Except.error.inj failed).symm
    | cons v rest =>
      obtain ⟨t, taken, -⟩ := Tape.take_of_cons contents
      rw [taken] at failed
      exact .inl (r.machine.turn_stop failed)
  | room v =>
    rw [step_of_room r demand] at failed
    exact .inl (r.machine.turn_stop failed)

theorem run_stop_on_tapes {n : Nat} {s : Stop} (failed : (r.run n).1 = some (.error s)) :
    s.Intrinsic ∨ s = .fault .inputExhausted := by
  induction n generalizing r with
  | zero => cases failed
  | succ n ih =>
    simp only [Rig.run] at failed
    split at failed
    · rename_i reason _ _ stepped
      cases failed
      exact stop_on_tapes (congrArg Stepped.result stepped)
    · cases failed
    · exact ih failed

/-- The end of the input is the one fault that tells the two kinds of channel apart. -/
theorem Interchanges.starved_iff (same : r.Interchanges r') (n : Nat) :
    (r'.run n).1 = some (.error (.fault .notConnected)) ↔
      (r.run n).1 = some (.error (.fault .inputExhausted)) := by
  rw [(same.run n).1]
  constructor
  · intro starved
    cases result : (r.run n).1 with
    | none =>
      rw [result] at starved
      cases starved
    | some e =>
      cases e with
      | ok s =>
        rw [result] at starved
        cases starved
      | error s =>
        rcases run_stop_on_tapes result with own | rfl
        · rw [result] at starved
          have same : s.onWires = .fault .notConnected := by
            rw [Option.map_some] at starved
            exact Except.error.inj (Option.some.inj starved)
          rw [Stop.onWires_of_intrinsic own] at same
          subst same
          cases own
        · rfl
  · intro exhausted
    rw [exhausted]
    rfl

def onTapes (p : Program) (label : String) (debug : Bool) (input : Tape) : Rig Tape Tape :=
  { machine := .load p label debug, input, output := {} }

def onWires (p : Program) (label : String) (debug : Bool) (input : Wire) : Rig Wire Wire :=
  { machine := .load p label debug, input, output := {} }

/-- A program does the same on a tape and on a closed wire that holds the same values, whether it is
watched step by step or run to its end. Where it runs out of input on one, it does so on the
other. -/
theorem tape_wire_interchange (p : Program) (label : String) (debug : Bool) (xs : List Word)
    (input : Wire) (holds : input.toList = xs) (shut : input.closed = true) (n : Nat) :
    let tapes := onTapes p label debug (.ofList xs)
    let wires := onWires p label debug input
    (watch advance n wires).1 = (watch advance n tapes).1.map shownOnWires ∧
      (watch advance n tapes).2.Interchanges (watch advance n wires).2 ∧
      (wires.run n).1 = (tapes.run n).1.map (Except.mapError Stop.onWires) ∧
      (tapes.run n).2.Interchanges (wires.run n).2 ∧
      ((wires.run n).1 = some (.error (.fault .notConnected)) ↔
        (tapes.run n).1 = some (.error (.fault .inputExhausted))) := by
  intro tapes wires
  have same : tapes.Interchanges wires := by
    refine ⟨rfl, rfl, ?_, rfl, shut, rfl⟩
    exact holds.trans (Tape.toList_ofList xs).symm
  obtain ⟨shown, watched⟩ := same.watch n
  obtain ⟨outcome, last⟩ := same.run n
  exact ⟨shown, watched, outcome, last, same.starved_iff n⟩

/-- A program that passes on two values and then asks for a third. -/
def greedy : Program := ⟨#[3, 20, 4, 20, 3, 20, 4, 20, 3, 20, 99]⟩

/-- A wire on which two values were put before it was closed. -/
def twoThenClosed : Wire := Wire.close (Wire.push (Wire.push {} 5).2 7).2

/-- The greedy program passes on the two values and fails, on a tape and on the wire. -/
theorem greedy_interchange :
    twoThenClosed.toList = [5, 7] ∧ twoThenClosed.closed = true ∧
      ((onWires greedy "main" false twoThenClosed).run 9).1 =
        some (.error (.fault .notConnected)) ∧
      ((onTapes greedy "main" false (.ofList [5, 7])).run 9).1 =
        some (.error (.fault .inputExhausted)) ∧
      ((onWires greedy "main" false twoThenClosed).run 9).2.output.toList = [5, 7] := by
  obtain ⟨-, -, -, last, starved⟩ :=
    tape_wire_interchange greedy "main" false [5, 7] twoThenClosed rfl rfl 9
  have exhausted : ((onTapes greedy "main" false (.ofList [5, 7])).run 9).1 =
      some (.error (.fault .inputExhausted)) := by rfl
  have passed :
      ((onTapes greedy "main" false (.ofList [5, 7])).run 9).2.output.toList = [5, 7] := by
    rfl
  exact ⟨rfl, rfl, starved.mpr exhausted, exhausted, last.output.trans passed⟩

end Rig

end Intcode
