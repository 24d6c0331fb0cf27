import Intcode.Machine.Run

/-!
# Turns

What a step does depends on the channels only through the one word that it may take and through
whether the one value that it may put is accepted. `demand` says which of these a machine is about
to do, and `turn` what becomes of the machine once it is done. The three equations for `step` are
all that later proofs use of it. A step that goes through leaves the machine halted if and only if
it ends the run.
-/

namespace Intcode

inductive Demand where
  | nothing
  /-- It takes a word. -/
  | word
  /-- It puts a value. -/
  | room (value : Word)
  deriving DecidableEq, Repr

def Action.demand : Action → Demand
  | .input _ => .word
  | .output v => .room v
  | .store .. | .jump .. | .adjust .. | .halt => .nothing

def Traffic.words : Option Traffic → List Word
  | some (.sent v) => [v]
  | some (.received _) | none => []

namespace Machine

def demand (m : Machine) : Demand :=
  if m.halted then .nothing
  else
    match m.plan with
    | .error _ => .nothing
    | .ok p => p.action.demand

/-- What becomes of the machine in a step whose channel has been used. -/
def turn (m : Machine) (received : Word) : Except Stop Progress × Machine :=
  if m.halted then (.ok .halted, m)
  else
    match m.plan with
    | .error e => (.error (.fault e), m)
    | .ok p => m.commit p received

theorem demand_of_plan {m : Machine} {p : Plan} (running : m.halted = false)
    (h : m.plan = .ok p) : m.demand = p.action.demand := by
  simp only [demand, running, Bool.false_eq_true, if_false, h]

theorem turn_of_plan {m : Machine} {p : Plan} (running : m.halted = false)
    (h : m.plan = .ok p) (received : Word) : m.turn received = m.commit p received := by
  simp only [turn, running, Bool.false_eq_true, if_false, h]

end Machine

namespace Rig

variable {ι ω : Type}

def notes (r : Rig ι ω) (received : Word) : Array Record :=
  if r.machine.halted then r.trace
  else
    match r.machine.plan with
    | .error _ => r.trace
    | .ok p => recorded r.machine p received r.trace

variable [Channel ι] [Channel ω]

theorem step_of_halted (r : Rig ι ω) (h : r.machine.halted = true) :
    r.step = ⟨.ok .halted, r, none⟩ := by
  obtain ⟨m, input, output, trace⟩ := r
  exact if_pos h

theorem step_of_fault (r : Rig ι ω) {f : Fault} (running : r.machine.halted = false)
    (h : r.machine.plan = .error f) : r.step = ⟨.error (.fault f), r, none⟩ := by
  obtain ⟨m, input, output, trace⟩ := r
  dsimp only at running h
  simp only [step, running, Bool.false_eq_true, if_false, h]

theorem step_of_nothing (r : Rig ι ω) (h : r.machine.demand = .nothing) :
    r.step =
      ⟨(r.machine.turn 0).1, ⟨(r.machine.turn 0).2, r.input, r.output, r.notes 0⟩, none⟩ := by
  obtain ⟨m, input, output, trace⟩ := r
  simp only [Machine.demand] at h
  simp only [step, Machine.turn, notes]
  by_cases halted : m.halted
  · simp only [halted, if_true]
  · simp only [halted, Bool.false_eq_true, if_false] at h ⊢
    cases hp : m.plan with
    | error e => rfl
    | ok p =>
      obtain ⟨opcode, action⟩ := p
      rw [hp] at h
      cases action with
      | input target => cases h
      | output v => cases h
      | _ => rfl

theorem step_of_word (r : Rig ι ω) (h : r.machine.demand = .word) :
    r.step = match Channel.take r.input with
      | (.error s, input) => ⟨.error s, { r with input }, none⟩
      | (.ok v, input) =>
        ⟨(r.machine.turn v).1, ⟨(r.machine.turn v).2, input, r.output, r.notes v⟩,
          some (.received v)⟩ := by
  obtain ⟨m, input, output, trace⟩ := r
  simp only [Machine.demand] at h
  simp only [step, Machine.turn, notes]
  by_cases halted : m.halted
  · simp [halted] at h
  · simp only [halted, Bool.false_eq_true, if_false] at h ⊢
    cases hp : m.plan with
    | error e => simp [hp] at h
    | ok p =>
      obtain ⟨opcode, action⟩ := p
      rw [hp] at h
      cases action with
      | input target => rfl
      | _ => cases h

theorem step_of_room (r : Rig ι ω) {w : Word} (h : r.machine.demand = .room w) :
    r.step = match Channel.put r.output w with
      | (.error s, output) => ⟨.error s, ⟨r.machine, r.input, output, r.notes 0⟩, none⟩
      | (.ok (), output) =>
        ⟨(r.machine.turn 0).1, ⟨(r.machine.turn 0).2, r.input, output, r.notes 0⟩,
          some (.sent w)⟩ := by
  obtain ⟨m, input, output, trace⟩ := r
  simp only [Machine.demand] at h
  simp only [step, Machine.turn, notes]
  by_cases halted : m.halted
  · simp [halted] at h
  · simp only [halted, Bool.false_eq_true, if_false] at h ⊢
    cases hp : m.plan with
    | error e => simp [hp] at h
    | ok p =>
      obtain ⟨opcode, action⟩ := p
      rw [hp] at h
      cases action with
      | output v =>
        cases h
        rfl
      | _ => cases h

/-- A step that goes through carries out the plan of its machine. -/
theorem exists_commit_of_ok {r : Rig ι ω} {progress : Progress} (running : r.machine.halted = false)
    (went : r.step.result = .ok progress) : ∃ p received, r.machine.plan = .ok p ∧
      (r.machine.commit p received).1 = .ok progress ∧
      r.step.rig.machine = (r.machine.commit p received).2 := by
  cases planned : r.machine.plan with
  | error f =>
    rw [step_of_fault r running planned] at went
    cases went
  | ok p =>
    have turned (received : Word) := Machine.turn_of_plan running planned received
    refine ⟨p, ?_⟩
    cases demand : r.machine.demand with
    | nothing =>
      rw [step_of_nothing r demand] at went ⊢
      exact ⟨0, rfl, turned 0 ▸ went, turned 0 ▸ rfl⟩
    | word =>
      rw [step_of_word r demand] at went ⊢
      revert went
      obtain ⟨got, input⟩ := Channel.take r.input
      intro went
      cases got with
      | error s => cases went
      | ok v => exact ⟨v, rfl, turned v ▸ went, turned v ▸ rfl⟩
    | room v =>
      rw [step_of_room r demand] at went ⊢
      revert went
      obtain ⟨accepted, output⟩ := Channel.put r.output v
      intro went
      cases accepted with
      | error s => cases went
      | ok u => exact ⟨0, rfl, turned 0 ▸ went, turned 0 ▸ rfl⟩

end Rig

namespace Machine

variable {m : Machine} {p : Plan} {received : Word} {progress : Progress}

theorem advance_ok {o : Opcode} (ok : (m.advance o).1 = .ok progress) :
    progress = .running ∧ (m.advance o).2.halted = m.halted := by
  rw [advance] at ok ⊢
  split at ok
  · exact ⟨(Except.ok.inj ok).symm, rfl⟩
  · cases ok

/-- A machine is halted behind a plan that goes through if and only if the plan ends the run. -/
theorem commit_ok (running : m.halted = false) (ok : (m.commit p received).1 = .ok progress) :
    (m.commit p received).2.halted = true ↔ progress = .halted := by
  obtain ⟨memory, ip, base, halted, debug, label⟩ := m
  obtain ⟨opcode, action⟩ := p
  dsimp only at running
  subst running
  have advanced {m : Machine} (still : m.halted = false)
      (ok : (m.advance opcode).1 = .ok progress) :
      (m.advance opcode).2.halted = true ↔ progress = .halted := by
    obtain ⟨rfl, same⟩ := advance_ok ok
    rw [same, still]
    exact iff_of_false Bool.false_ne_true Progress.noConfusion
  cases action with
  | halt =>
    simp only [commit, stopHere] at ok ⊢
    split at ok
    · exact iff_of_true rfl (Except.ok.inj ok).symm
    · cases ok
  | jump condition destination taken =>
    cases taken with
    | false => exact advanced rfl ok
    | true =>
      simp only [commit] at ok ⊢
      split at ok
      · cases ok
      · obtain rfl := Except.ok.inj ok
        rw [if_neg ‹_›]
        exact iff_of_false Bool.false_ne_true Progress.noConfusion
  | _ => exact advanced rfl ok

end Machine

/-- The machine is halted after a step that goes through if and only if the step ends the run. -/
theorem Rig.halted_step {ι ω : Type} [Channel ι] [Channel ω] {r : Rig ι ω} {progress : Progress}
    (running : r.machine.halted = false) (went : r.step.result = .ok progress) :
    r.step.rig.machine.halted = true ↔ progress = .halted := by
  obtain ⟨p, received, -, done, same⟩ := exists_commit_of_ok running went
  rw [same]
  exact Machine.commit_ok running done

end Intcode
