import Intcode.Proofs.Channel.Contents
import Intcode.Proofs.Machine.Turn

/-!
# Steps that fail

A step that ends in a fault leaves the machine and its channels as they were, with one exception.
The address of the next instruction is computed last. If the instruction stands at the very end of
the address space, that fails after the instruction has been carried out, and what it stored, took
or put is not undone. `fault_keeps_iff` says exactly which steps this befalls.
-/

namespace Intcode

namespace Machine

def effect (m : Machine) (received : Word) : Action → Machine
  | .store _ _ target value => { m with memory := m.memory.set target value }
  | .input target => { m with memory := m.memory.set target received }
  | .adjust _ base => { m with base }
  | .output _ | .jump .. | .halt => m

theorem paramAddress_eq_error {m : Machine} {offset : Nat} {f : Fault}
    (small : offset < 0x8000000000000000) (h : m.paramAddress offset = .error f) :
    f = .overflow m.ip ∧ 0x8000000000000000 ≤ m.ip.toInt + offset := by
  rw [paramAddress] at h
  split at h
  · cases h
  · rename_i outside
    refine ⟨(Except.error.inj h).symm, ?_⟩
    rw [Word.add?, Word.ofInt?_eq_none_iff, Int64.toInt_ofNat_of_lt small] at outside
    have low := Int64.le_toInt m.ip
    omega

theorem width_small (o : Opcode) : o.width < 0x8000000000000000 := by
  cases o <;> decide

theorem advance_fault {m : Machine} {o : Opcode} {f : Fault}
    (h : (m.advance o).1 = .error (.fault f)) :
    (m.advance o).2 = m ∧ f = .overflow m.ip ∧ 0x8000000000000000 ≤ m.ip.toInt + o.width := by
  rw [advance] at h ⊢
  split at h <;> rename_i address
  · cases h
  · obtain rfl : _ = f := Stop.fault.inj (Except.error.inj h)
    simp only [true_and]
    exact paramAddress_eq_error (width_small o) address

/-- A plan that fails has had its effect. Only a jump fails for another reason than the end of the
address space. -/
theorem commit_fault {m : Machine} {p : Plan} {received : Word} {f : Fault}
    (h : (m.commit p received).1 = .error (.fault f)) :
    (m.commit p received).2 = m.effect received p.action ∧
      ((∃ c d t, p.action = .jump c d t) ∨
        f = .overflow m.ip ∧ 0x8000000000000000 ≤ m.ip.toInt + p.opcode.width) := by
  obtain ⟨memory, ip, base, halted, debug, label⟩ := m
  obtain ⟨opcode, action⟩ := p
  cases action with
  | store a b target value =>
    obtain ⟨same, reason⟩ := advance_fault h
    exact ⟨same, Or.inr reason⟩
  | input target =>
    obtain ⟨same, reason⟩ := advance_fault h
    exact ⟨same, Or.inr reason⟩
  | output v =>
    obtain ⟨same, reason⟩ := advance_fault h
    exact ⟨same, Or.inr reason⟩
  | adjust delta base' =>
    obtain ⟨same, reason⟩ := advance_fault h
    exact ⟨same, Or.inr reason⟩
  | jump condition destination taken =>
    refine ⟨?_, Or.inl ⟨condition, destination, taken, rfl⟩⟩
    cases taken with
    | false => exact (advance_fault h).1
    | true =>
      simp only [commit] at h ⊢
      split at h
      · rename_i negative
        simp only [negative, if_true, effect]
      · cases h
  | halt =>
    simp only [commit, stopHere] at h
    split at h <;> cases h

end Machine

namespace Rig

variable {ι ω : Type}

/-- A step has changed nothing but the records, and has taken and put nothing. -/
structure Kept (r : Rig ι ω) (s : Stepped ι ω) : Prop where
  machine : s.rig.machine = r.machine
  input : s.rig.input = r.input
  output : s.rig.output = r.output
  traffic : s.traffic = none

/-- An action leaves something behind if it is carried out: it stores what is not there yet, moves
the base, takes a value or puts one. -/
def Spoils [Channel ι] [Channel ω] (r : Rig ι ω) : Action → Prop
  | .store _ _ target value => r.machine.memory.set target value ≠ r.machine.memory
  | .input _ => ∃ v, (Channel.take r.input).1 = .ok v
  | .output v => (Channel.put r.output v).1 = .ok ()
  | .adjust _ base => base ≠ r.machine.base
  | .jump .. | .halt => False

/-- The next step carries out an instruction behind which there is no address. -/
def Overruns [Channel ι] [Channel ω] (r : Rig ι ω) : Prop :=
  r.machine.halted = false ∧ ∃ p, r.machine.plan = .ok p ∧
    0x8000000000000000 ≤ r.machine.ip.toInt + p.opcode.width ∧ r.Spoils p.action

theorem Kept.refl (r : Rig ι ω) (trace : Array Record) (result : Except Stop Progress) :
    Kept r ⟨result, ⟨r.machine, r.input, r.output, trace⟩, none⟩ :=
  ⟨rfl, rfl, rfl, rfl⟩

theorem effect_eq_iff [Channel ι] [Channel ω] (r : Rig ι ω) {a : Action} (received : Word)
    (quiet : a.demand = .nothing) : r.machine.effect received a = r.machine ↔ ¬ r.Spoils a := by
  obtain ⟨⟨memory, ip, base, halted, debug, label⟩, input, output, trace⟩ := r
  cases a with
  | store x y target value => simp [Machine.effect, Spoils]
  | adjust delta base' => simp [Machine.effect, Spoils]
  | input target => cases quiet
  | output v => cases quiet
  | jump condition destination taken => simp [Machine.effect, Spoils]
  | halt => simp [Machine.effect, Spoils]

theorem overruns_iff [Channel ι] [Channel ω] {r : Rig ι ω} {p : Plan}
    (running : r.machine.halted = false) (planned : r.machine.plan = .ok p) :
    r.Overruns ↔ 0x8000000000000000 ≤ r.machine.ip.toInt + p.opcode.width ∧ r.Spoils p.action := by
  constructor
  · rintro ⟨_, q, same, late, spoils⟩
    obtain rfl : p = q := Except.ok.inj (planned.symm.trans same)
    exact ⟨late, spoils⟩
  · intro h
    exact ⟨running, p, planned, h⟩

section Planned

variable {r : Rig Endpoint Endpoint} {p : Plan} {f : Fault}

/-- An instruction that uses no channel spoils exactly what its effect changes. -/
theorem keeps_of_quiet (running : r.machine.halted = false) (planned : r.machine.plan = .ok p)
    (quiet : p.action.demand = .nothing) (failed : r.step.result = .error (.fault f)) :
    (Kept r r.step ↔ ¬ r.Overruns) ∧ (r.Overruns → f = .overflow r.machine.ip) := by
  have idle := (Machine.demand_of_plan running planned).trans quiet
  rw [step_of_nothing r idle, Machine.turn_of_plan running planned] at failed ⊢
  obtain ⟨done, reason⟩ := Machine.commit_fault failed
  have kept : Kept r ⟨(r.machine.commit p 0).1,
      ⟨(r.machine.commit p 0).2, r.input, r.output, r.notes 0⟩, none⟩ ↔ ¬ r.Spoils p.action := by
    rw [← effect_eq_iff r 0 quiet, ← done]
    exact ⟨fun h => h.machine, fun h => ⟨h, rfl, rfl, rfl⟩⟩
  rw [kept, overruns_iff running planned]
  rcases reason with ⟨c, d, t, jump⟩ | ⟨overflow, late⟩
  · have harmless : ¬ r.Spoils p.action := by simp [jump, Spoils]
    exact ⟨by simp [harmless], fun h => absurd h.2 harmless⟩
  · exact ⟨by rw [and_iff_right late], fun _ => overflow⟩

/-- An input that fails after its value was taken has lost the value. -/
theorem keeps_of_input {target : Nat} (running : r.machine.halted = false)
    (planned : r.machine.plan = .ok p) (input : p.action = .input target)
    (failed : r.step.result = .error (.fault f)) :
    (Kept r r.step ↔ ¬ r.Overruns) ∧ (r.Overruns → f = .overflow r.machine.ip) := by
  have wants : r.machine.demand = .word := by
    rw [Machine.demand_of_plan running planned, input]
    rfl
  rw [step_of_word r wants] at failed ⊢
  rw [overruns_iff running planned, input]
  cases taken : Channel.take r.input with
  | mk got rest =>
    rw [taken] at failed
    cases got with
    | error s =>
      obtain rfl := Endpoint.take_error taken
      have harmless : ¬ r.Spoils (.input target) := by simp [Spoils, taken]
      exact ⟨iff_of_true (Kept.refl r _ _) (fun h => harmless h.2), fun h => absurd h.2 harmless⟩
    | ok v =>
      have lost : r.Spoils (.input target) := ⟨v, by rw [taken]⟩
      simp only [Machine.turn_of_plan running planned] at failed ⊢
      rcases (Machine.commit_fault failed).2 with ⟨c, d, t, jump⟩ | ⟨overflow, late⟩
      · rw [input] at jump
        cases jump
      · exact ⟨iff_of_false (fun h => by cases h.traffic) (fun h => h ⟨late, lost⟩),
          fun _ => overflow⟩

/-- An output that fails after its value was put has put the value. -/
theorem keeps_of_output {v : Word} (running : r.machine.halted = false)
    (planned : r.machine.plan = .ok p) (output : p.action = .output v)
    (failed : r.step.result = .error (.fault f)) :
    (Kept r r.step ↔ ¬ r.Overruns) ∧ (r.Overruns → f = .overflow r.machine.ip) := by
  have wants : r.machine.demand = .room v := by
    rw [Machine.demand_of_plan running planned, output]
    rfl
  rw [step_of_room r wants] at failed ⊢
  rw [overruns_iff running planned, output]
  cases given : Channel.put r.output v with
  | mk accepted rest =>
    rw [given] at failed
    cases accepted with
    | error s =>
      obtain rfl := Endpoint.put_error given
      have harmless : ¬ r.Spoils (.output v) := by simp [Spoils, given]
      exact ⟨iff_of_true (Kept.refl r _ _) (fun h => harmless h.2), fun h => absurd h.2 harmless⟩
    | ok u =>
      have gone : r.Spoils (.output v) := congrArg Prod.fst given
      simp only [Machine.turn_of_plan running planned] at failed ⊢
      rcases (Machine.commit_fault failed).2 with ⟨c, d, t, jump⟩ | ⟨overflow, late⟩
      · rw [output] at jump
        cases jump
      · exact ⟨iff_of_false (fun h => by cases h.traffic) (fun h => h ⟨late, gone⟩),
          fun _ => overflow⟩

end Planned

/-- A failed step keeps everything, unless it is one that overruns the address space. -/
theorem fault_keeps_iff (r : Rig Endpoint Endpoint) (f : Fault)
    (failed : r.step.result = .error (.fault f)) :
    (Kept r r.step ↔ ¬ r.Overruns) ∧ (r.Overruns → f = .overflow r.machine.ip) := by
  have running : r.machine.halted = false := by
    rw [Bool.eq_false_iff]
    intro halted
    have idle : r.machine.demand = .nothing := by simp [Machine.demand, halted]
    rw [step_of_nothing r idle] at failed
    simp [Machine.turn, halted] at failed
  cases planned : r.machine.plan with
  | error e =>
    have idle : r.machine.demand = .nothing := by simp [Machine.demand, running, planned]
    have still : r.machine.turn 0 = (.error (.fault e), r.machine) := by
      simp [Machine.turn, running, planned]
    have safe : ¬ r.Overruns := by
      rintro ⟨_, p, same, _⟩
      rw [planned] at same
      cases same
    rw [step_of_nothing r idle, still]
    exact ⟨iff_of_true (Kept.refl r _ _) safe, fun h => absurd h safe⟩
  | ok p =>
    cases action : p.action with
    | input target => exact keeps_of_input running planned action failed
    | output v => exact keeps_of_output running planned action failed
    | _ => exact keeps_of_quiet running planned (by rw [action]; rfl) failed

/-- A machine that has stored an input instruction in the last two cells and jumped to it. -/
def lastInput : Rig Endpoint Endpoint :=
  (Rig.run 3
    { machine := .load ⟨#[1101, 3, 0, 9223372036854775806, 1101, 20, 0, 9223372036854775807,
        1105, 1, 9223372036854775806]⟩
      input := .tape (.ofList [5])
      output := .tape {} }).2

/-- Its step fails, and yet the value is gone from the input and in the memory. -/
theorem lastInput_is_lost :
    lastInput.step.result = .error (.fault (.overflow 9223372036854775806)) ∧
      lastInput.step.traffic = some (.received 5) ∧
      lastInput.machine.memory.get 20 = 0 ∧ lastInput.step.rig.machine.memory.get 20 = 5 :=
  ⟨by rfl, by rfl, by rfl, by decide +kernel⟩

/-- The criterion at the step that loses its input. -/
theorem lastInput_keeps_iff :
    lastInput.step.result = .error (.fault (.overflow 9223372036854775806)) ∧
      (Kept lastInput lastInput.step ↔ ¬ lastInput.Overruns) :=
  have failed : lastInput.step.result = .error (.fault (.overflow 9223372036854775806)) := by
    rfl
  ⟨failed, (fault_keeps_iff lastInput _ failed).1⟩

end Rig

end Intcode
