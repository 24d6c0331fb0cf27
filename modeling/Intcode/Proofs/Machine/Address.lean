import Intcode.Proofs.Machine.Faults
import Intcode.Proofs.Machine.Run
import Mathlib.Logic.Function.Iterate

/-!
# The address of the next instruction

Wherever a program jumps to and however long it runs, its next instruction stands at an address that
can be read. There are three ways to a new address. The sum behind an ordinary instruction and the
destination of a jump are checked before they are taken. The sum behind a halt is not: a halt at the
last address breaks the machine down, and nothing else that a machine does by itself can.
-/

namespace Intcode

theorem exists_of_bind_eq_ok {ε α β : Type} {x : Except ε α} {k : α → Except ε β} {b : β}
    (h : (x >>= k) = .ok b) : ∃ a, x = .ok a ∧ k a = .ok b := by
  cases x with
  | error e => cases h
  | ok a => exact ⟨a, rfl, h⟩

theorem Memory.read_of_nonneg (memory : Memory) {a : Word} (nonneg : 0 ≤ a.toInt) :
    ∃ w, memory.read a = .ok w := by
  obtain ⟨n, number⟩ := Int.eq_ofNat_of_zero_le nonneg
  refine ⟨memory.get n, ?_⟩
  rw [read, Word.toNat?_eq_some_iff.mpr number]

theorem Word.toInt_one : (1 : Word).toInt = 1 := rfl

theorem Word.add?_one_eq_none_iff {a : Word} : add? a 1 = none ↔ a.toInt = 0x7FFFFFFFFFFFFFFF := by
  have low := Int64.le_toInt a
  have high := Int64.toInt_lt a
  rw [add?, ofInt?_eq_none_iff, toInt_one]
  constructor
  · intro outside
    omega
  · intro last
    omega

namespace Machine

def Halts (m : Machine) : Prop :=
  m.halted = false ∧ ∃ w i, m.memory.read m.ip = .ok w ∧ Instruction.decode w = .ok i ∧
    i.opcode = .halt

def AtLast (m : Machine) : Prop := m.ip.toInt = 0x7FFFFFFFFFFFFFFF

variable {m : Machine}

theorem advance_nonneg (nonneg : 0 ≤ m.ip.toInt) (o : Opcode) : 0 ≤ (m.advance o).2.ip.toInt := by
  rw [advance, paramAddress]
  cases sum : Word.add? m.ip (Int64.ofNat o.width) with
  | none => exact nonneg
  | some next =>
    have exact := Word.add?_eq_some_iff.mp sum
    have width : (Int64.ofNat o.width).toInt = o.width := by cases o <;> rfl
    show 0 ≤ next.toInt
    omega

theorem commit_nonneg (nonneg : 0 ≤ m.ip.toInt) (p : Plan) (received : Word) :
    0 ≤ (m.commit p received).2.ip.toInt := by
  obtain ⟨memory, ip, base, halted, debug, label⟩ := m
  have before : 0 ≤ ip.toInt := nonneg
  obtain ⟨o, action⟩ := p
  cases action with
  | store | input | output | adjust => exact advance_nonneg (by exact before) o
  | jump condition destination taken =>
    cases taken with
    | false => exact advance_nonneg (by exact before) o
    | true =>
      simp only [commit]
      split
      · exact before
      · rename_i valid
        have zero : (0 : Word).toInt = 0 := rfl
        rw [Int64.lt_iff_toInt_lt, zero] at valid
        exact Int.not_lt.mp valid
  | halt =>
    simp only [commit, stopHere]
    cases sum : Word.add? ip 1 with
    | none => exact before
    | some next =>
      have exact := Word.add?_eq_some_iff.mp sum
      rw [Word.toInt_one] at exact
      show 0 ≤ next.toInt
      omega

theorem turn_nonneg (nonneg : 0 ≤ m.ip.toInt) (received : Word) :
    0 ≤ (m.turn received).2.ip.toInt := by
  rw [turn]
  split
  · exact nonneg
  · split
    · exact nonneg
    · exact commit_nonneg nonneg _ received

theorem storeOf_ne_halt (i : Instruction) (f : Word → Word → Option Word) :
    m.storeOf i f ≠ .ok .halt := by
  intro halt
  obtain ⟨a, -, halt⟩ := exists_of_bind_eq_ok halt
  obtain ⟨b, -, halt⟩ := exists_of_bind_eq_ok halt
  obtain ⟨target, -, halt⟩ := exists_of_bind_eq_ok halt
  cases value : f a b <;> rw [value] at halt <;> cases halt

theorem jumpIf_ne_halt (i : Instruction) (nonzero : Bool) : m.jumpIf i nonzero ≠ .ok .halt := by
  intro halt
  obtain ⟨condition, -, halt⟩ := exists_of_bind_eq_ok halt
  obtain ⟨destination, -, halt⟩ := exists_of_bind_eq_ok halt
  cases halt

/-- No other operation halts. -/
theorem opcode_of_halt {i : Instruction} (halt : m.action i = .ok .halt) : i.opcode = .halt := by
  rw [action] at halt
  cases operation : i.opcode with
  | halt => rfl
  | add | mul | lessThan | equals =>
    rw [operation] at halt
    exact absurd halt (storeOf_ne_halt i _)
  | jumpIfTrue | jumpIfFalse =>
    rw [operation] at halt
    exact absurd halt (jumpIf_ne_halt i _)
  | input | output =>
    rw [operation] at halt
    obtain ⟨a, -, halt⟩ := exists_of_bind_eq_ok halt
    cases halt
  | adjustBase =>
    rw [operation] at halt
    obtain ⟨delta, -, halt⟩ := exists_of_bind_eq_ok halt
    split at halt <;> cases halt

/-- A machine with a plan is at an instruction whose parameters can be resolved. -/
theorem exists_action_of_plan {p : Plan} (planned : m.plan = .ok p) :
    ∃ w i, m.memory.read m.ip = .ok w ∧ Instruction.decode w = .ok i ∧ p.opcode = i.opcode ∧
      m.action i = .ok p.action := by
  obtain ⟨w, fetched, planned⟩ := exists_of_bind_eq_ok planned
  obtain ⟨i, decoded, planned⟩ := exists_of_bind_eq_ok planned
  obtain ⟨a, resolved, planned⟩ := exists_of_bind_eq_ok planned
  obtain rfl := Except.ok.inj planned
  cases decoding : Instruction.decode w with
  | error e =>
    rw [decoding] at decoded
    cases decoded
  | ok j =>
    rw [decoding] at decoded
    obtain rfl : j = i := Except.ok.inj decoded
    exact ⟨w, j, fetched, decoding, rfl, resolved⟩

/-- A machine executes a halt if that is its plan. -/
theorem halts_iff_plan : m.Halts ↔ m.halted = false ∧ ∃ p, m.plan = .ok p ∧ p.action = .halt := by
  constructor
  · rintro ⟨running, w, i, fetched, decoded, halt⟩
    refine ⟨running, ⟨i.opcode, .halt⟩, ?_, rfl⟩
    have read : (Instruction.decode w).mapError (·.at m.ip) = .ok i := by
      rw [decoded]
      rfl
    rw [plan, fetched]
    simp only [bind, Except.bind, read, action, halt]
    rfl
  · rintro ⟨running, p, planned, halt⟩
    obtain ⟨w, i, fetched, decoded, -, resolved⟩ := exists_action_of_plan planned
    rw [halt] at resolved
    exact ⟨running, w, i, fetched, decoded, opcode_of_halt resolved⟩

theorem Halts.demand_eq (halts : m.Halts) : m.demand = .nothing := by
  obtain ⟨running, p, planned, halt⟩ := halts_iff_plan.mp halts
  rw [demand_of_plan running planned, halt]
  rfl

/-- A machine that is about to use a channel executes no halt. -/
theorem not_halts_of_demand (busy : m.demand ≠ .nothing) : ¬(m.Halts ∧ m.AtLast) :=
  fun h => busy h.1.demand_eq

theorem Halts.turn_eq (halts : m.Halts) (received : Word) : m.turn received = m.stopHere := by
  obtain ⟨running, p, planned, halt⟩ := halts_iff_plan.mp halts
  obtain ⟨memory, ip, base, halted, debug, label⟩ := m
  rw [turn_of_plan running planned, commit, halt]

/-- Only a halt is carried out without looking for an address behind it. -/
theorem commit_crashed_iff {p : Plan} {received : Word} :
    (m.commit p received).1 = .error .crashed ↔ p.action = .halt ∧ m.AtLast := by
  obtain ⟨memory, ip, base, halted, debug, label⟩ := m
  obtain ⟨o, action⟩ := p
  cases action with
  | halt =>
    have crash : (stopHere ⟨memory, ip, base, halted, debug, label⟩).1 = .error .crashed ↔
        Word.add? ip 1 = none := by
      rw [stopHere]
      cases Word.add? ip 1 with
      | none => exact ⟨fun _ => rfl, fun _ => rfl⟩
      | some next =>
        constructor
        · intro crash
          cases crash
        · intro last
          cases last
    rw [commit, crash, Word.add?_one_eq_none_iff]
    exact ⟨fun last => ⟨rfl, last⟩, fun h => h.2⟩
  | jump condition destination taken =>
    constructor
    · intro crash
      cases taken with
      | false => exact absurd crash (advance_ne_crashed _ o)
      | true =>
        simp only [commit] at crash
        split at crash <;> cases crash
    · rintro ⟨halt, -⟩
      cases halt
  | store | input | output | adjust =>
    constructor
    · intro crash
      exact absurd crash (advance_ne_crashed _ o)
    · rintro ⟨halt, -⟩
      cases halt

/-- By itself a machine breaks down exactly at a halt at the last address. -/
theorem turn_crashed_iff (received : Word) :
    (m.turn received).1 = .error .crashed ↔ m.Halts ∧ m.AtLast := by
  constructor
  · intro crash
    rw [turn] at crash
    split at crash
    · cases crash
    · rename_i awake
      split at crash
      · cases crash
      · rename_i p planned
        obtain ⟨halt, last⟩ := commit_crashed_iff.mp crash
        exact ⟨halts_iff_plan.mpr ⟨Bool.eq_false_iff.mpr awake, p, planned, halt⟩, last⟩
  · rintro ⟨halts, last⟩
    obtain ⟨running, p, planned, halt⟩ := halts_iff_plan.mp halts
    rw [turn_of_plan running planned]
    exact commit_crashed_iff.mpr ⟨halt, last⟩

end Machine

namespace Rig

variable {ι ω : Type} [Channel ι] [Channel ω]

/-- The rig after so many steps. A step that does not go through is followed by another attempt. -/
def after (n : Nat) (r : Rig ι ω) : Rig ι ω := (fun r => r.step.rig)^[n] r

def ChannelBreaks (r : Rig ι ω) : Prop :=
  r.machine.demand = .word ∧ (Channel.take r.input).1 = .error .crashed ∨
    ∃ v, r.machine.demand = .room v ∧ (Channel.put r.output v).1 = .error .crashed

/-- What is true of the address of the next instruction, wherever a run has come to. -/
structure Addressed (r : Rig ι ω) : Prop where
  nonneg : 0 ≤ r.machine.ip.toInt
  le_last : r.machine.ip.toInt ≤ 0x7FFFFFFFFFFFFFFF
  /-- The instruction can be fetched. -/
  fetched : ∃ w, r.machine.memory.read r.machine.ip = .ok w
  /-- The machine breaks down where there is no address behind a halt, and nowhere else. -/
  crashed : r.step.result = .error .crashed ↔
    r.machine.Halts ∧ r.machine.AtLast ∨ r.ChannelBreaks
  /-- A halt anywhere else ends the run one past it and leaves the memory as it is. -/
  halted : r.machine.Halts → ¬r.machine.AtLast → ∃ s : HaltState,
    s.ip.toInt = r.machine.ip.toInt + 1 ∧ s.memory = r.machine.memory ∧
      ∀ k, (r.run (k + 1)).1 = some (.ok s)

/-- A step leaves the machine as it is or takes it one turn further. -/
theorem machine_step (r : Rig ι ω) :
    r.step.rig.machine = r.machine ∨ ∃ v, r.step.rig.machine = (r.machine.turn v).2 := by
  cases demand : r.machine.demand with
  | nothing =>
    rw [step_of_nothing r demand]
    exact .inr ⟨0, rfl⟩
  | word =>
    rw [step_of_word r demand]
    obtain ⟨got, input⟩ := Channel.take r.input
    cases got with
    | error s => exact .inl rfl
    | ok v => exact .inr ⟨v, rfl⟩
  | room v =>
    rw [step_of_room r demand]
    obtain ⟨accepted, output⟩ := Channel.put r.output v
    cases accepted with
    | error s => exact .inl rfl
    | ok u => exact .inr ⟨0, rfl⟩

theorem after_nonneg {r : Rig ι ω} (nonneg : 0 ≤ r.machine.ip.toInt) (n : Nat) :
    0 ≤ (after n r).machine.ip.toInt := by
  induction n with
  | zero => exact nonneg
  | succ n ih =>
    rw [after, Function.iterate_succ_apply']
    obtain same | ⟨v, turned⟩ := machine_step (after n r)
    · exact same ▸ ih
    · exact turned ▸ Machine.turn_nonneg ih v

theorem crashed_iff (r : Rig ι ω) : r.step.result = .error .crashed ↔
    r.machine.Halts ∧ r.machine.AtLast ∨ r.ChannelBreaks := by
  have own (v : Word) := r.machine.turn_crashed_iff v
  cases demand : r.machine.demand with
  | nothing =>
    have unused : ¬r.ChannelBreaks := by
      rintro (⟨word, -⟩ | ⟨v, room, -⟩)
      · rw [demand] at word
        cases word
      · rw [demand] at room
        cases room
    rw [step_of_nothing r demand, own 0, or_iff_left unused]
  | word =>
    have busy := Machine.not_halts_of_demand (by rw [demand]; nofun)
    have used : r.ChannelBreaks ↔ (Channel.take r.input).1 = .error .crashed := by
      simp [ChannelBreaks, demand]
    rw [step_of_word r demand, or_iff_right busy, used]
    obtain ⟨got, input⟩ := Channel.take r.input
    cases got with
    | error s => simp
    | ok v => exact iff_of_false (fun crash => busy ((own v).mp crash)) nofun
  | room v =>
    have busy := Machine.not_halts_of_demand (by rw [demand]; nofun)
    have used : r.ChannelBreaks ↔ (Channel.put r.output v).1 = .error .crashed := by
      simp [ChannelBreaks, demand]
    rw [step_of_room r demand, or_iff_right busy, used]
    obtain ⟨accepted, output⟩ := Channel.put r.output v
    cases accepted with
    | error s => simp
    | ok u => exact iff_of_false (fun crash => busy ((own 0).mp crash)) nofun

theorem run_of_halt {r : Rig ι ω} (halts : r.machine.Halts) (before : ¬r.machine.AtLast) :
    ∃ s : HaltState, s.ip.toInt = r.machine.ip.toInt + 1 ∧ s.memory = r.machine.memory ∧
      ∀ k, (r.run (k + 1)).1 = some (.ok s) := by
  cases sum : Word.add? r.machine.ip 1 with
  | none => exact absurd (Word.add?_one_eq_none_iff.mp sum) before
  | some next =>
    have behind := Word.add?_eq_some_iff.mp sum
    rw [Word.toInt_one] at behind
    refine ⟨⟨r.machine.memory, next⟩, behind, rfl, fun k => ?_⟩
    rw [run, step_of_nothing r halts.demand_eq, halts.turn_eq, Machine.stopHere, sum]
    rfl

/-- Whatever a program does, on any channels and for any number of steps, its next instruction
stands at an address; a halt ends the run one past it, except for a halt at the last address, which
is all that can break the machine down. -/
theorem runs_stay_addressed (p : Program) (label : String) (debug : Bool) (input : ι) (output : ω)
    (n : Nat) : Addressed (after n ⟨.load p label debug, input, output, #[]⟩) := by
  have nonneg := after_nonneg (r := ⟨.load p label debug, input, output, #[]⟩) (Int.le_refl 0) n
  generalize after n ⟨.load p label debug, input, output, #[]⟩ = r at nonneg ⊢
  have small := Int64.toInt_lt r.machine.ip
  exact ⟨nonneg, by omega, r.machine.memory.read_of_nonneg nonneg, r.crashed_iff, run_of_halt⟩

end Rig

/-- A program that goes to the last address, where it has put a halt. -/
def lastHalt : Program := ⟨#[1101, 0, 99, 9223372036854775807, 1105, 1, 9223372036854775807]⟩

/-- It has come to an address, and the sum behind its halt is no word. -/
theorem lastHalt_breaks_down :
    let r := Rig.after 2 (⟨.load lastHalt, .ofList [], {}, #[]⟩ : Rig Tape Tape)
    r.machine.Halts ∧ r.machine.ip.toInt = 0x7FFFFFFFFFFFFFFF ∧
      Word.add? r.machine.ip 1 = none ∧ r.step.result = .error .crashed ∧
      r.step.rig.machine.ip.toInt ≠ r.machine.ip.toInt + 1 := by
  intro r
  have halts : r.machine.Halts := ⟨by decide +kernel, 99, ⟨.halt, 0⟩, by rfl, by rfl, rfl⟩
  exact ⟨halts, by decide +kernel, by decide +kernel, by rfl, by decide +kernel⟩

end Intcode
