import Intcode.Machine.Run

/-!
# Runs, step by step

A run repeats a step until it halts or does not go through. Here the step may be that of any system
around a machine, so that runs of a rig and runs of larger systems share what is said about them: a
run that is over stays as it is, and one that is not goes on by one more step.
-/

namespace Intcode

section Repeat

variable {σ : Type} (step : σ → Except Stop Progress × σ) (machine : σ → Machine)

def endOf (m : Machine) : Except Stop Progress → Option (Except Stop HaltState)
  | .error s => some (.error s)
  | .ok .halted => some (.ok m.haltState)
  | .ok .running => none

/-- Repeats a step at most `fuel` times. There is no result if the run is not over by then. -/
def repeatStep : Nat → σ → Option (Except Stop HaltState) × σ
  | 0, s => (none, s)
  | fuel + 1, s =>
    match endOf (machine (step s).2) (step s).1 with
    | some e => (some e, (step s).2)
    | none => repeatStep fuel (step s).2

theorem repeatStep_add (n k : Nat) (s : σ) :
    repeatStep step machine (n + k) s = match repeatStep step machine n s with
      | (some e, t) => (some e, t)
      | (none, t) => repeatStep step machine k t := by
  induction n generalizing s with
  | zero => simp only [Nat.zero_add, repeatStep]
  | succ n ih =>
    rw [Nat.succ_add]
    simp only [repeatStep]
    cases endOf (machine (step s).2) (step s).1 with
    | some e => rfl
    | none => exact ih (step s).2

variable {step machine}

/-- A run that is over stays as it is. -/
theorem repeatStep_of_le {n m : Nat} {s t : σ} {e : Except Stop HaltState} (h : n ≤ m)
    (finished : repeatStep step machine n s = (some e, t)) :
    repeatStep step machine m s = (some e, t) := by
  obtain ⟨k, rfl⟩ := Nat.exists_eq_add_of_le h
  rw [repeatStep_add, finished]

/-- A run that is not over goes on by one step. -/
theorem repeatStep_succ {n : Nat} {s t : σ} (running : repeatStep step machine n s = (none, t)) :
    repeatStep step machine (n + 1) s = (endOf (machine (step t).2) (step t).1, (step t).2) := by
  rw [repeatStep_add, running]
  simp only [repeatStep]
  cases endOf (machine (step t).2) (step t).1 <;> rfl

/-- A run that is over ended with the last of its steps. -/
theorem repeatStep_ended {n : Nat} {s t : σ} {e : Except Stop HaltState}
    (finished : repeatStep step machine n s = (some e, t)) :
    ∃ m < n, ∃ u, repeatStep step machine m s = (none, u) ∧
      endOf (machine (step u).2) (step u).1 = some e ∧ (step u).2 = t := by
  induction n generalizing s with
  | zero => cases finished
  | succ n ih =>
    simp only [repeatStep] at finished
    cases ending : endOf (machine (step s).2) (step s).1 with
    | some e' =>
      rw [ending] at finished
      cases finished
      exact ⟨0, Nat.succ_pos n, s, rfl, ending, rfl⟩
    | none =>
      rw [ending] at finished
      obtain ⟨m, below, u, reached, last⟩ := ih finished
      refine ⟨m + 1, Nat.succ_lt_succ below, u, ?_, last⟩
      simp only [repeatStep, ending]
      exact reached

/-- What a step preserves, a run preserves. -/
theorem repeatStep_preserves {P : σ → Prop} (preserved : ∀ s, P s → P (step s).2) (n : Nat)
    {s : σ} (start : P s) : P (repeatStep step machine n s).2 := by
  induction n generalizing s with
  | zero => exact start
  | succ n ih =>
    simp only [repeatStep]
    cases endOf (machine (step s).2) (step s).1 with
    | some e => exact preserved s start
    | none => exact ih (preserved s start)

end Repeat

theorem Rig.run_eq {ι ω : Type} [Channel ι] [Channel ω] (n : Nat) (r : Rig ι ω) :
    r.run n = repeatStep (fun r => (r.step.result, r.step.rig)) Rig.machine n r := by
  induction n generalizing r with
  | zero => rfl
  | succ n ih =>
    simp only [Rig.run, repeatStep]
    obtain ⟨result, rig, traffic⟩ := r.step
    cases result with
    | error s => rfl
    | ok progress =>
      cases progress with
      | halted => rfl
      | running => exact ih rig

/-- A run ends with its first step or goes on behind it. -/
theorem Rig.run_succ {ι ω : Type} [Channel ι] [Channel ω] (r : Rig ι ω) (n : Nat) :
    r.run (n + 1) = match endOf r.step.rig.machine r.step.result with
      | some e => (some e, r.step.rig)
      | none => r.step.rig.run n := by
  rw [run_eq, run_eq]
  rfl

end Intcode
