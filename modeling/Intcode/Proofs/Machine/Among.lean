import Intcode.Channel.Endpoint
import Intcode.Proofs.Channel.Use
import Intcode.Proofs.Machine.Faults
import Intcode.Proofs.Machine.Run
import Intcode.Proofs.Machine.Turn

/-!
# Runs among others

Others may use the channels of a machine between any two of its steps. A step that waits for a value
is then made again later, and a run has ended once a step has halted or failed. If nobody else uses
the channels, such a run is the plain run of the machine, except that it waits where that one stops.
-/

namespace Intcode

inductive Moment where
  /-- The machine makes a step, or tries to. -/
  | step
  /-- Somebody else uses the input. -/
  | input (use : Use)
  /-- Somebody else uses the output. -/
  | output (use : Use)
  deriving DecidableEq, Repr

/-- A channel on which waiting changes nothing, and on which a put does not wait. -/
structure Channel.Patient (σ : Type) [Channel σ] : Prop where
  take : ∀ c : σ, (Channel.take c).1 = .error .blocked → (Channel.take c).2 = c
  put : ∀ (c : σ) v, (Channel.put c v).1 ≠ .error .blocked

/-- A channel that does not report the breakdown of a processor as a fault of its own. -/
structure Channel.Modest (σ : Type) [Channel σ] : Prop where
  take : ∀ (c : σ) id, (Channel.take c).1 ≠ .error (.fault (.processorCrashed id))
  put : ∀ (c : σ) v id, (Channel.put c v).1 ≠ .error (.fault (.processorCrashed id))

def unlessBlocked : Option (Except Stop HaltState) → Option (Except Stop HaltState)
  | some (.error .blocked) => none
  | e => e

theorem unlessBlocked_of_ne {e : Option (Except Stop HaltState)}
    (moving : e ≠ some (.error .blocked)) : unlessBlocked e = e := by
  unfold unlessBlocked
  split
  · exact absurd rfl moving
  · rfl

theorem endOf_eq_blocked_iff {m : Machine} {result : Except Stop Progress} :
    endOf m result = some (.error .blocked) ↔ result = .error .blocked := by
  cases result with
  | ok progress => cases progress <;> simp [endOf]
  | error s => simp [endOf]

namespace Rig

variable {ι ω : Type} [Channel ι] [Channel ω]

/-- How the run has ended, if it has, and the rig, after a moment. -/
def pass (run : Option (Except Stop HaltState) × Rig ι ω) :
    Moment → Option (Except Stop HaltState) × Rig ι ω
  | .step =>
    match run with
    | (some e, r) => (some e, r)
    | (none, r) => (unlessBlocked (endOf r.step.rig.machine r.step.result), r.step.rig)
  | .input use => (run.1, { run.2 with input := use.on run.2.input })
  | .output use => (run.1, { run.2 with output := use.on run.2.output })

def among (moments : List Moment) (r : Rig ι ω) : Option (Except Stop HaltState) × Rig ι ω :=
  moments.foldl pass (none, r)

theorem foldl_pass_of_ended (n : Nat) (e : Except Stop HaltState) (r : Rig ι ω) :
    (List.replicate n Moment.step).foldl pass (some e, r) = (some e, r) := by
  induction n with
  | zero => rfl
  | succ n ih => exact ih

/-- A step that waits leaves the rig as it is. -/
theorem step_of_blocked (patient : Channel.Patient ι) (prompt : Channel.Patient ω) {r : Rig ι ω}
    (blocked : r.step.result = .error .blocked) : r.step.rig = r := by
  cases demand : r.machine.demand with
  | nothing =>
    rw [step_of_nothing r demand] at blocked
    exact absurd blocked (r.machine.turn_ne_blocked 0)
  | word =>
    rw [step_of_word r demand] at blocked ⊢
    have waiting := patient.take r.input
    cases taken : Channel.take r.input with
    | mk got input =>
      rw [taken] at blocked waiting
      cases got with
      | ok v => exact absurd blocked (r.machine.turn_ne_blocked v)
      | error s =>
        obtain rfl : s = .blocked := Except.error.inj blocked
        obtain rfl : input = r.input := waiting rfl
        rfl
  | room w =>
    rw [step_of_room r demand] at blocked
    have ready := prompt.put r.output w
    cases given : Channel.put r.output w with
    | mk got output =>
      rw [given] at blocked ready
      cases got with
      | ok u => exact absurd blocked (r.machine.turn_ne_blocked 0)
      | error s =>
        obtain rfl : s = .blocked := Except.error.inj blocked
        exact absurd rfl ready

theorem foldl_pass_of_blocked (patient : Channel.Patient ι) (prompt : Channel.Patient ω)
    (n : Nat) {r : Rig ι ω} (blocked : r.step.result = .error .blocked) :
    (List.replicate n Moment.step).foldl pass (none, r) = (none, r) := by
  induction n with
  | zero => rfl
  | succ n ih =>
    have stays : pass (none, r) .step = (none, r) := by
      rw [pass, blocked, step_of_blocked patient prompt blocked]
      rfl
    rw [List.replicate_succ, List.foldl_cons, stays]
    exact ih

/-- If nobody else uses the channels, the run of a machine is its plain run, except that it waits
where that one stops: there the step is tried again, in vain. -/
theorem among_steps (patient : Channel.Patient ι) (prompt : Channel.Patient ω) (n : Nat)
    (r : Rig ι ω) :
    among (.replicate n .step) r = (unlessBlocked (r.run n).1, (r.run n).2) := by
  rw [run_eq]
  induction n generalizing r with
  | zero => rfl
  | succ n ih =>
    by_cases blocked : r.step.result = .error .blocked
    · rw [among, foldl_pass_of_blocked patient prompt (n + 1) blocked]
      simp only [repeatStep, blocked, endOf, unlessBlocked,
        step_of_blocked patient prompt blocked]
    · have moving := mt (endOf_eq_blocked_iff (m := r.step.rig.machine)).mp blocked
      have first : pass (none, r) .step = (endOf r.step.rig.machine r.step.result, r.step.rig) := by
        rw [pass, unlessBlocked_of_ne moving]
      rw [among, List.replicate_succ, List.foldl_cons, first, repeatStep]
      cases ended : endOf r.step.rig.machine r.step.result with
      | none => exact ih r.step.rig
      | some e =>
        rw [ended] at moving
        rw [foldl_pass_of_ended, unlessBlocked_of_ne moving]

/-- A step whose channels are modest does not fail with the fault of a breakdown. -/
theorem step_ne_processorCrashed (inlet : Channel.Modest ι) (outlet : Channel.Modest ω)
    (r : Rig ι ω) (id : String) : r.step.result ≠ .error (.fault (.processorCrashed id)) := by
  intro failed
  have own (received : Word) : (r.machine.turn received).1 ≠
      .error (.fault (.processorCrashed id)) := fun h => r.machine.turn_stop h
  cases demand : r.machine.demand with
  | nothing =>
    rw [step_of_nothing r demand] at failed
    exact own 0 failed
  | word =>
    rw [step_of_word r demand] at failed
    have modest := inlet.take r.input id
    cases taken : Channel.take r.input with
    | mk got input =>
      rw [taken] at failed modest
      cases got with
      | ok v => exact own v failed
      | error s => exact modest (congrArg Except.error (Except.error.inj failed))
  | room w =>
    rw [step_of_room r demand] at failed
    have modest := outlet.put r.output w id
    cases given : Channel.put r.output w with
    | mk got output =>
      rw [given] at failed modest
      cases got with
      | ok u => exact own 0 failed
      | error s => exact modest (congrArg Except.error (Except.error.inj failed))

theorem among_ne_processorCrashed (inlet : Channel.Modest ι) (outlet : Channel.Modest ω)
    (moments : List Moment) (r : Rig ι ω) (id : String) :
    (among moments r).1 ≠ some (.error (.fault (.processorCrashed id))) := by
  suffices later : ∀ run : Option (Except Stop HaltState) × Rig ι ω,
      run.1 ≠ some (.error (.fault (.processorCrashed id))) →
        (moments.foldl pass run).1 ≠ some (.error (.fault (.processorCrashed id))) from
    later (none, r) nofun
  induction moments with
  | nil => exact fun _ modest => modest
  | cons moment moments ih =>
    rintro ⟨e, r⟩ modest
    refine ih _ ?_
    cases moment with
    | input use | output use => exact modest
    | step =>
      cases e with
      | some e => exact modest
      | none =>
        have sound := step_ne_processorCrashed inlet outlet r id
        intro ended
        cases result : r.step.result with
        | ok progress =>
          rw [pass, result] at ended
          cases progress <;> cases ended
        | error s =>
          rw [result] at sound
          rw [pass, result] at ended
          cases s with
          | fault f =>
            cases ended
            exact sound rfl
          | blocked | crashed => cases ended

end Rig

namespace Endpoint

theorem patient : Channel.Patient Endpoint where
  take e blocked := by
    obtain ⟨got, e', taken⟩ : ∃ got e', Channel.take e = (got, e') := ⟨_, _, rfl⟩
    rw [taken] at blocked ⊢
    obtain rfl : got = .error .blocked := blocked
    exact take_error taken
  put e v := by
    cases e with
    | wire w => exact Wire.put_prompt w v
    | tape t | joystick j | unplugged | broken => nofun

theorem modest : Channel.Modest Endpoint where
  take e id := by
    cases e with
    | tape t =>
      simp only [Channel.take, Endpoint.take, Tape.take]
      split <;> simp
    | wire w =>
      simp only [Channel.take, Endpoint.take, Wire.take]
      split
      · simp
      · split <;> simp
    | joystick j | unplugged | broken => simp [Channel.take, Endpoint.take]
  put e v id := by
    cases e with
    | wire w =>
      simp only [Channel.put, Endpoint.put, Wire.put]
      split <;> simp
    | tape t | joystick j | unplugged | broken => simp [Channel.put, Endpoint.put]

end Endpoint

end Intcode
