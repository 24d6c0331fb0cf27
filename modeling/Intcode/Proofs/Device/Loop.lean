import Intcode.Proofs.Device.Relaying
import Intcode.Proofs.Device.Running
import Intcode.Proofs.Schedule

/-!
# Device loops are coroutines

A device loop does what the machine and the device do by turns, whatever the order in which the
processor and the relay act.
-/

namespace Intcode

namespace Loop

variable {τ : Type} [Device τ]

/-- Every run of a loop mirrors a run of its coroutine, which only an act of the processor takes a
step further. -/
theorem mirrors_of_observed {id : String} {p : Program} {input : Endpoint} {device : τ}
    {debug : Bool} (whole : input ≠ .broken) (steady : Device.Steady device) {told : List Word}
    {l : Loop Endpoint τ} (run : Observed tells (load id p input device debug) told l) :
    ∃ own n, Mirrors id told own l (Coroutine.run n (.load id p input device debug)) := by
  induction run with
  | refl => exact ⟨input, 0, mirrors_load id p debug whole steady⟩
  | act i run here ih =>
    rename_i told l
    obtain ⟨own, n, mirrors⟩ := ih
    by_cases first : i = 0
    · subst first
      have silent : l.tells 0 = [] := if_pos (Or.inl rfl)
      simp only [System.act, if_true, silent, List.append_nil]
      cases reached : Coroutine.run n (.load id p input device debug) with
      | mk e c =>
        rw [reached] at mirrors
        obtain ⟨own', same | ⟨unfinished, next⟩⟩ := mirrors.actCpu
        · exact ⟨own', n, by rw [reached]; exact same⟩
        · refine ⟨own', n + 1, ?_⟩
          subst unfinished
          rw [Coroutine.run, repeatStep_succ reached]
          exact next
    · obtain rfl : i = 1 := by
        have two : i < 2 := here
        omega
      obtain ⟨own', after⟩ := mirrors.actRelay
      exact ⟨own', n, after⟩

/-- What a loop that has ended has in common with its coroutine, which has ended with `e` in `c`. -/
structure Agrees (id : String) (told : List Word) (l : Loop Endpoint τ) (e : Except Stop HaltState)
    (c : Coroutine Endpoint τ) : Prop where
  /-- The device was told the same values in the same order. -/
  told : told = c.service.told
  informed : c.service.Informed c.emitted
  device : l.relay.device = c.service.device
  /-- The same values are left. A relay closes its output at last. -/
  input : l.input = Channel.close c.service.input
  machine : l.cpu.machine = c.machine
  result : ∃ o, Outcome.ofEnd? id e = some o ∧ l.result = Coroutine.report o c.service.refusal

theorem Mirrors.still_of_ended {id : String} {told : List Word} {own : Endpoint}
    {l : Loop Endpoint τ} {run : Option (Except Stop HaltState) × Coroutine Endpoint τ}
    (mirrors : Mirrors id told own l run) {o : Relay.Outcome} (ended : l.relay.phase = .ended o) :
    Still l ∧ l.input = Channel.close own := by
  have input := mirrors.input
  cases o with
  | ok u =>
    have finished := mirrors.orderly.finished (by rw [ended]; rfl)
    rw [ended] at input
    exact ⟨Or.inl ⟨finished.2, by rw [ended]; rfl⟩, input⟩
  | error f =>
    have refused : l.relay.phase.refusal? ≠ none := by
      rw [ended]
      nofun
    rw [ended] at input
    exact ⟨Or.inr refused, by rw [mirrors.refused refused]; exact input⟩

/-- Whatever the order of the acts, a device loop that has ended agrees with its coroutine. -/
theorem ended_agrees_coroutine (id : String) (p : Program) (input : Endpoint) (device : τ)
    (debug : Bool) (whole : input ≠ .broken) (steady : Device.Steady device) {told : List Word}
    {l : Loop Endpoint τ} (run : Observed tells (load id p input device debug) told l)
    (ended : System.ended l = true) :
    ∃ bound e c, Agrees id told l e c ∧
      ∀ fuel, bound ≤ fuel → Coroutine.run fuel (.load id p input device debug) = (some e, c) := by
  obtain ⟨own, n, mirrors⟩ := mirrors_of_observed whole steady run
  have informed := Coroutine.informed_run n id p input device debug
  obtain ⟨cpuEnded, relayEnded⟩ := Bool.and_eq_true_iff.mp ended
  obtain ⟨o, outcome⟩ := Option.isSome_iff_exists.mp cpuEnded
  obtain ⟨ro, relayed⟩ := Option.isSome_iff_exists.mp relayEnded
  have phase := Relay.phase_of_outcome relayed
  cases reached : Coroutine.run n (.load id p input device debug) with
  | mk e' c =>
    rw [reached] at mirrors informed
    obtain ⟨still, closed⟩ := mirrors.still_of_ended phase
    have service : c.service = l.due own told := mirrors.service
    rw [still.due_eq, phase] at service
    have ending := mirrors.outcome
    rw [Processor.over?_of_ended outcome, Option.map_some, Option.map_eq_some_iff] at ending
    obtain ⟨e, rfl, ended⟩ := ending
    refine ⟨n, e, c, ⟨?_, informed, ?_, ?_, ?_, o, ended, ?_⟩, fun fuel late =>
      repeatStep_of_le late reached⟩
    · rw [service]
    · rw [service]
    · rw [service]
      exact closed
    · exact mirrors.machine.symm
    · rw [service]
      simp only [Loop.result, outcome, relayed]
      cases o <;> cases ro <;> rfl

def echo : Program := ⟨#[104, 5, 3, 0, 4, 0, 99]⟩

/-- A loop with a device that says back what it is told, after a run in which the two units take
turns. -/
theorem echo_agrees_coroutine :
    ∃ told l, Observed tells (load "main" echo (Endpoint.wire {}) ({} : Passing) false) told l ∧
      System.ended l = true ∧
      ∃ bound e c, Agrees "main" told l e c ∧
        ∀ fuel, bound ≤ fuel →
          Coroutine.run fuel (.load "main" echo (Endpoint.wire {}) ({} : Passing) false) =
            (some e, c) := by
  have reached := reaches_settle 100
    (load "main" echo (Endpoint.wire {}) ({} : Passing) false)
  obtain ⟨told, run⟩ := reached.observed tells
  have whole : Endpoint.wire {} ≠ .broken := nofun
  have steady : Device.Steady ({} : Passing) := fun told v => nofun
  have ended : System.ended
      (settle 100 (load "main" echo (Endpoint.wire {}) ({} : Passing) false)) = true := by
    decide +kernel
  exact ⟨told, _, run, ended, ended_agrees_coroutine _ _ _ _ _ whole steady run ended⟩

end Loop

end Intcode
