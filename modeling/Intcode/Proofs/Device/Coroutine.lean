import Intcode.Device.Basic
import Intcode.Proofs.Machine.Run
import Intcode.Proofs.Machine.Turn
import Intcode.Proofs.Processor.Act

/-!
# A machine and a device by turns

The sequential reading of a device loop. Whatever the machine emits, the device is told at once, and
its reply is put into the machine's input before the next instruction; an input instruction takes
from there directly. Once a reply is refused, the device is told nothing more.
-/

namespace Intcode

@[ext]
structure Service (ι τ : Type) where
  input : ι
  device : τ
  /-- The values that the device was told. -/
  told : List Word := []
  /-- Why a reply was refused, if one was. -/
  refusal : Option Stop := none

namespace Service

variable {ι τ : Type} [Channel ι]

def answer (s : Service ι τ) (w : Word) : Service ι τ :=
  match Channel.put s.input w with
  | (.ok (), input) => { s with input }
  | (.error e, input) => { s with input, refusal := some e }

def serve [Device τ] (s : Service ι τ) (v : Word) : Service ι τ :=
  if s.refusal.isSome then s
  else
    match Device.respond s.device v with
    | ⟨device, said, hangsUp, _⟩ =>
      let input := if hangsUp then Channel.close s.input else s.input
      let served : Service ι τ := { s with input, device, told := s.told ++ [v] }
      match said with
      | .reply w => served.answer w
      | .silent | .crash => served

end Service

/-- A machine whose output goes straight to a device. -/
structure Coroutine (ι τ : Type) where
  machine : Machine
  service : Service ι τ
  /-- The values that the machine has emitted. -/
  emitted : List Word := []

namespace Coroutine

variable {ι τ : Type} [Channel ι] [Device τ]

def load (id : String) (p : Program) (input : ι) (device : τ) (debug : Bool) : Coroutine ι τ :=
  { machine := Machine.load p id debug, service := { input, device } }

/-- Executes one instruction and lets the device handle what it emits. -/
def step (c : Coroutine ι τ) : Except Stop Progress × Coroutine ι τ :=
  let s := Rig.step (ω := Tape) ⟨c.machine, c.service.input, {}, #[]⟩
  let service : Service ι τ := { c.service with input := s.rig.input }
  (s.result,
    { machine := s.rig.machine
      service := (Traffic.words s.traffic).foldl Service.serve service
      emitted := c.emitted ++ Traffic.words s.traffic })

/-- Executes at most `fuel` instructions. There is no result if the run is not over by then. -/
def run (fuel : Nat) (c : Coroutine ι τ) : Option (Except Stop HaltState) × Coroutine ι τ :=
  repeatStep step Coroutine.machine fuel c

/-- The result of a coroutine: the fault of the machine, or else why a reply was refused. -/
def report : Outcome → Option Stop → Except Failure HaltState
  | .error f, _ => .error (.fault f)
  | .ok s, none => .ok s
  | .ok _, some (.fault f) => .error (.fault f)
  | .ok _, some .blocked | .ok _, some .crashed => .error .unfinished

theorem step_of_nothing (c : Coroutine ι τ) (h : c.machine.demand = .nothing) :
    c.step = ((c.machine.turn 0).1, { c with machine := (c.machine.turn 0).2 }) := by
  simp only [step]
  rw [Rig.step_of_nothing _ h]
  simp only [Traffic.words, List.foldl_nil, List.append_nil]

theorem step_of_word (c : Coroutine ι τ) (h : c.machine.demand = .word) :
    c.step = match Channel.take c.service.input with
      | (.error s, input) => (.error s, { c with service := { c.service with input } })
      | (.ok v, input) =>
        ((c.machine.turn v).1,
          { c with machine := (c.machine.turn v).2, service := { c.service with input } }) := by
  simp only [step]
  rw [Rig.step_of_word _ h]
  obtain ⟨got, input⟩ := Channel.take c.service.input
  cases got <;> simp only [Traffic.words, List.foldl_nil, List.append_nil]

theorem step_of_room (c : Coroutine ι τ) {v : Word} (h : c.machine.demand = .room v) :
    c.step = ((c.machine.turn 0).1,
      { machine := (c.machine.turn 0).2
        service := c.service.serve v
        emitted := c.emitted ++ [v] }) := by
  simp only [step]
  rw [Rig.step_of_room _ h]
  rfl

end Coroutine

namespace Service

variable {ι τ : Type} [Channel ι]

/-- The device has been told what was emitted, all of it unless a reply was refused. -/
structure Informed (s : Service ι τ) (emitted : List Word) : Prop where
  begins : s.told <+: emitted
  all : s.refusal = none → s.told = emitted

theorem told_answer (s : Service ι τ) (w : Word) : (s.answer w).told = s.told := by
  rw [answer]
  obtain ⟨accepted, input⟩ := Channel.put s.input w
  cases accepted <;> rfl

variable [Device τ]

theorem serve_of_refused {s : Service ι τ} (refused : s.refusal ≠ none) (v : Word) :
    s.serve v = s :=
  if_pos (Option.isSome_iff_ne_none.mpr refused)

theorem told_serve {s : Service ι τ} (unrefused : s.refusal = none) (v : Word) :
    (s.serve v).told = s.told ++ [v] := by
  rw [serve]
  rw [unrefused]
  obtain ⟨device, said, hangsUp, warnings⟩ := Device.respond s.device v
  cases said with
  | reply w => exact told_answer _ w
  | silent => rfl
  | crash => rfl

theorem Informed.serve {s : Service ι τ} {emitted : List Word} (informed : s.Informed emitted)
    (v : Word) : (s.serve v).Informed (emitted ++ [v]) := by
  by_cases refused : s.refusal = none
  · have told := told_serve refused v
    rw [informed.all refused] at told
    exact ⟨⟨[], by rw [told, List.append_nil]⟩, fun _ => told⟩
  · rw [serve_of_refused refused]
    exact ⟨informed.begins.trans (List.prefix_append _ _), fun h => absurd h refused⟩

end Service

namespace Coroutine

variable {ι τ : Type} [Channel ι] [Device τ]

theorem informed_step {c : Coroutine ι τ} (informed : c.service.Informed c.emitted) :
    c.step.2.service.Informed c.step.2.emitted := by
  cases demand : c.machine.demand with
  | nothing =>
    rw [step_of_nothing c demand]
    exact informed
  | word =>
    rw [step_of_word c demand]
    obtain ⟨got, input⟩ := Channel.take c.service.input
    cases got <;> exact ⟨informed.begins, informed.all⟩
  | room v =>
    rw [step_of_room c demand]
    exact informed.serve v

/-- At any time, the device was told what the machine emitted up to the first reply that was
refused. -/
theorem informed_run (fuel : Nat) (id : String) (p : Program) (input : ι) (device : τ)
    (debug : Bool) :
    let c := (run fuel (load id p input device debug)).2
    c.service.Informed c.emitted := by
  apply repeatStep_preserves (P := fun c : Coroutine ι τ => c.service.Informed c.emitted)
  · intro c informed
    exact informed_step informed
  · exact ⟨List.prefix_refl _, fun _ => rfl⟩

end Coroutine

end Intcode
