import Intcode.Proofs.Machine.Turn

/-!
# How cells are stored makes no difference

Two machines whose registers are equal and whose memories read the same everywhere do the same,
wherever their memories keep the cells and however many zeros these keep.
-/

namespace Intcode

/-- Two machines between which no instruction can tell the difference. -/
structure Machine.Resembles (m m' : Machine) : Prop where
  read : ∀ a, m.memory.read a = m'.memory.read a
  ip : m.ip = m'.ip
  base : m.base = m'.base
  halted : m.halted = m'.halted

theorem Memory.read_set (memory : Memory) (target : Nat) (value a : Word) :
    (memory.set target value).read a =
      if a.toInt = target then .ok value else memory.read a := by
  rw [read, read]
  cases number : Word.toNat? a with
  | none =>
    have negative := Word.toNat?_eq_none_iff.mp number
    rw [if_neg (by omega)]
  | some n =>
    have equal : a.toInt = target ↔ n = target := by
      rw [Word.toNat?_eq_some_iff.mp number, Int.natCast_inj]
    simp only [get_set, equal]
    split <;> rfl

namespace Machine.Resembles

variable {m m' : Machine} (same : m.Resembles m')
include same

theorem operand_eq (i : Instruction) (param : Nat) : m.operand i param = m'.operand i param := by
  simp only [operand, raw, paramAddress, relative, mode, same.read, same.ip, same.base]

theorem target_eq (i : Instruction) (param : Nat) : m.target i param = m'.target i param := by
  simp only [target, raw, paramAddress, relative, mode, same.read, same.ip, same.base]

theorem plan_eq : m.plan = m'.plan := by
  simp only [plan, action, storeOf, jumpIf, same.operand_eq, same.target_eq, same.read, same.ip,
    same.base]

theorem set (target : Nat) (value : Word) :
    { m with memory := m.memory.set target value }.Resembles
      { m' with memory := m'.memory.set target value } := by
  refine ⟨fun a => ?_, same.ip, same.base, same.halted⟩
  rw [Memory.read_set, Memory.read_set, same.read]

theorem advance_eq (o : Opcode) :
    (m.advance o).1 = (m'.advance o).1 ∧ (m.advance o).2.Resembles (m'.advance o).2 := by
  have address : m.paramAddress o.width = m'.paramAddress o.width := by
    rw [paramAddress, paramAddress, same.ip]
  rw [advance, advance, address]
  cases m'.paramAddress o.width with
  | error f => exact ⟨rfl, same⟩
  | ok ip => exact ⟨rfl, same.read, rfl, same.base, same.halted⟩

theorem commit_eq (p : Plan) (received : Word) :
    (m.commit p received).1 = (m'.commit p received).1 ∧
      (m.commit p received).2.Resembles (m'.commit p received).2 := by
  obtain ⟨memory, ip, base, halted, debug, label⟩ := m
  obtain ⟨memory', ip', base', halted', debug', label'⟩ := m'
  obtain ⟨read, ips, bases, halts⟩ := same
  cases ips
  cases bases
  cases halts
  have same : Resembles ⟨memory, ip, base, halted, debug, label⟩
      ⟨memory', ip, base, halted, debug', label'⟩ := ⟨read, rfl, rfl, rfl⟩
  obtain ⟨o, action⟩ := p
  cases action with
  | store a b target value => exact (same.set target value).advance_eq o
  | input target => exact (same.set target received).advance_eq o
  | output value => exact same.advance_eq o
  | jump condition destination taken =>
    cases taken with
    | false => exact same.advance_eq o
    | true =>
      simp only [commit]
      split
      · exact ⟨rfl, same⟩
      · exact ⟨rfl, read, rfl, rfl, rfl⟩
  | adjust delta base' =>
    have moved : Resembles ⟨memory, ip, base', halted, debug, label⟩
        ⟨memory', ip, base', halted, debug', label'⟩ := ⟨read, rfl, rfl, rfl⟩
    exact moved.advance_eq o
  | halt =>
    simp only [commit, stopHere]
    split
    · exact ⟨rfl, read, rfl, rfl, rfl⟩
    · exact ⟨rfl, read, rfl, rfl, rfl⟩

theorem demand_eq : m.demand = m'.demand := by
  simp only [demand, same.halted, same.plan_eq]

theorem turn_eq (received : Word) :
    (m.turn received).1 = (m'.turn received).1 ∧
      (m.turn received).2.Resembles (m'.turn received).2 := by
  rw [turn, turn, same.halted, same.plan_eq]
  split
  · exact ⟨rfl, same⟩
  · cases m'.plan with
    | error f => exact ⟨rfl, same⟩
    | ok p => exact same.commit_eq p received

end Machine.Resembles

namespace Rig

variable {ι ω : Type}

structure Resembles (r r' : Rig ι ω) : Prop where
  machine : r.machine.Resembles r'.machine
  input : r.input = r'.input
  output : r.output = r'.output

theorem Resembles.step [Channel ι] [Channel ω] {r r' : Rig ι ω} (same : r.Resembles r') :
    r.step.result = r'.step.result ∧ r.step.traffic = r'.step.traffic ∧
      r.step.rig.Resembles r'.step.rig := by
  obtain ⟨m, input, output, trace⟩ := r
  obtain ⟨m', input', output', trace'⟩ := r'
  obtain ⟨machines, inputs, outputs⟩ := same
  cases inputs
  cases outputs
  have turns := machines.turn_eq
  cases demand : m.demand with
  | nothing =>
    have demand' : m'.demand = .nothing := machines.demand_eq ▸ demand
    rw [step_of_nothing _ demand, step_of_nothing _ demand']
    exact ⟨(turns 0).1, rfl, (turns 0).2, rfl, rfl⟩
  | word =>
    have demand' : m'.demand = .word := machines.demand_eq ▸ demand
    rw [step_of_word _ demand, step_of_word _ demand']
    dsimp only
    obtain ⟨got, rest⟩ := Channel.take input
    cases got with
    | error s => exact ⟨rfl, rfl, machines, rfl, rfl⟩
    | ok v => exact ⟨(turns v).1, rfl, (turns v).2, rfl, rfl⟩
  | room w =>
    have demand' : m'.demand = .room w := machines.demand_eq ▸ demand
    rw [step_of_room _ demand, step_of_room _ demand']
    dsimp only
    obtain ⟨accepted, rest⟩ := Channel.put output w
    cases accepted with
    | error s => exact ⟨rfl, rfl, machines, rfl, rfl⟩
    | ok u => exact ⟨(turns 0).1, rfl, (turns 0).2, rfl, rfl⟩

end Rig

end Intcode
