import Intcode.Proofs.Instruction
import Intcode.Proofs.Machine.Ideal
import Intcode.Proofs.Machine.Storage

/-!
# Machines refine the ideal machine

A machine refines an ideal one if its memory reads as the function does and its registers hold the
same numbers. Then it resolves every parameter to the same value, address or fault, plans what the
ideal machine is due to do and, if there is an address behind the instruction, carries it out in the
same way. There is an equation for each part of a plan, and `Matches.step` puts them together.
-/

namespace Intcode

def Ideal.Effect.ofAction : Action → Ideal.Effect
  | .store _ _ target value => .write target value
  | .input target => .take target
  | .output value => .emit value
  | .jump _ destination true => .goto destination
  | .jump _ _ false => .skip
  | .adjust _ base => .rebase base
  | .halt => .stop

/-- A machine holds in its memory and its registers what an ideal machine holds. -/
structure Machine.Refines (m : Machine) (s : Ideal) : Prop where
  read : ∀ a : Word, 0 ≤ a.toInt → m.memory.read a = .ok (s.cells a.toInt.toNat)
  ip : m.ip.toInt = s.ip
  base : m.base.toInt = s.base
  halted : m.halted = s.halted

namespace Ideal

theorem operation?_eq_some_iff {n : Int} {o : Opcode} : operation? n = some o ↔ n = o.code := by
  constructor
  · intro named
    unfold operation? at named
    split at named <;> cases named <;> rfl
  · rintro rfl
    cases o <;> rfl

/-- The machine knows the operations of the table by the same numbers. -/
theorem operation?_natCast (n : Nat) : operation? n = Opcode.ofCode? n := by
  ext o
  rw [operation?_eq_some_iff, Opcode.ofCode?_eq_some_iff, Int.natCast_inj]

/-- The machine moves past as many words as the table says. -/
theorem span_eq (o : Opcode) : span o = o.width := by
  cases o <;> rfl

/-- The machine knows the modes by the same digits. -/
theorem mode_ofDigit (s : Ideal) (w : Word) (k : Nat) :
    (Mode.ofDigit (modeDigit w k)).mapError (·.at s.place) = s.mode w k := by
  rw [mode]
  generalize modeDigit w k = digit
  fun_cases mode? digit with
  | case1 | case2 | case3 => rfl
  | case4 position immediate relative =>
    rw [Mode.ofDigit] <;> first | assumption | rfl

theorem operation_of_error {w : Word} {e : DecodeError} (s : Ideal)
    (undecodable : Instruction.decode w = .error e) : s.operation w = .error (e.at s.place) := by
  by_cases negative : w.toInt < 0
  · rw [Instruction.decode_of_negative negative] at undecodable
    cases undecodable
    exact if_pos negative
  · obtain ⟨n, value⟩ := Int.eq_ofNat_of_zero_le (Int.not_lt.mp negative)
    have low : w.toInt % 100 = (n % 100 : Nat) := by omega
    rw [Instruction.decode_of_nat value] at undecodable
    rw [operation, if_neg negative, low, operation?_natCast]
    cases code : Opcode.ofCode? (n % 100) with
    | some o =>
      rw [code] at undecodable
      cases undecodable
    | none =>
      rw [code] at undecodable
      cases undecodable
      rfl

theorem operation_of_decoded {w : Word} {i : Instruction} (s : Ideal)
    (decoded : Instruction.decode w = .ok i) :
    s.operation w = .ok i.opcode ∧ ∀ k, 0 < k → (i.digit k : Int) = modeDigit w k := by
  by_cases negative : w.toInt < 0
  · rw [Instruction.decode_of_negative negative] at decoded
    cases decoded
  · obtain ⟨n, value⟩ := Int.eq_ofNat_of_zero_le (Int.not_lt.mp negative)
    have low : w.toInt % 100 = (n % 100 : Nat) := by omega
    rw [Instruction.decode_of_nat value] at decoded
    rw [operation, if_neg negative, low, operation?_natCast]
    cases code : Opcode.ofCode? (n % 100) with
    | none =>
      rw [code] at decoded
      cases decoded
    | some o =>
      rw [code] at decoded
      cases decoded
      refine ⟨rfl, fun param counted => ?_⟩
      obtain ⟨k, rfl⟩ : ∃ k, param = k + 1 := ⟨param - 1, by omega⟩
      have shift : n / 100 / 10 ^ k = n / 10 ^ (k + 1 + 1) := by
        rw [Nat.div_div_eq_div_mul, Nat.pow_add 10 k 2, Nat.mul_comm]
      rw [Instruction.digit, Instruction.digitOf_eq, modeDigit, value, shift]
      push_cast
      rfl

theorem operation_of_due {s : Ideal} {o : Opcode} {e : Effect} (h : s.due = .ok (o, e)) :
    s.operation s.word = .ok o := by
  rw [due] at h
  cases operation : s.operation s.word with
  | error f =>
    rw [operation] at h
    cases h
  | ok o' =>
    rw [operation] at h
    simp only [bind, Except.bind] at h
    split at h
    · cases h
    · cases h
      rfl

theorem InRange.width {s : Ideal} (inRange : s.InRange) {o : Opcode}
    (named : s.operation s.word = .ok o) : s.ip + o.width < 0x8000000000000000 :=
  span_eq o ▸ inRange o named

end Ideal

namespace Machine.Refines

variable {m : Machine} {s : Ideal} (refines : m.Refines s)
include refines

theorem place : s.place = m.ip := by
  have small : s.ip < 0x8000000000000000 := by
    have := Int64.toInt_lt m.ip
    have := refines.ip
    omega
  apply Int64.toInt_inj.mp
  rw [Ideal.place, Int64.toInt_ofNat_of_lt small, refines.ip]

theorem exact_eq (n : Int) :
    s.exact n = match Word.ofInt? n with
      | some w => .ok w
      | none => .error (.overflow m.ip) := by
  rw [Ideal.exact, Word.ofInt?, refines.place]
  split <;> rfl

theorem read_eq (a : Word) : m.memory.read a = s.read a := by
  rw [Ideal.read]
  split
  · rename_i negative
    rw [Memory.read, Word.toNat?_eq_none_iff.mpr negative]
  · rename_i nonneg
    exact refines.read a (Int.not_lt.mp nonneg)

theorem paramAddress_eq {k : Nat} (small : s.ip + k < 0x8000000000000000) :
    m.paramAddress k = .ok (Int64.ofNat (s.ip + k)) := by
  have sum : Word.add? m.ip (Int64.ofNat k) = some (Int64.ofNat (s.ip + k)) := by
    rw [Word.add?_eq_some_iff, Int64.toInt_ofNat_of_lt small,
      Int64.toInt_ofNat_of_lt (by omega), refines.ip]
    rfl
  rw [paramAddress, sum]

theorem raw_eq {k : Nat} (small : s.ip + k < 0x8000000000000000) :
    m.raw k = .ok (s.parameter k) := by
  have value := Int64.toInt_ofNat_of_lt small
  have cell := refines.read (Int64.ofNat (s.ip + k)) (by omega)
  rw [value, Int.toNat_natCast] at cell
  rw [raw, refines.paramAddress_eq small]
  exact cell

theorem relative_eq (offset : Word) : m.relative offset = s.exact (s.base + offset.toInt) := by
  rw [relative, refines.exact_eq, ← refines.base]
  rfl

omit refines in
theorem bind_locate (x : Except Fault Word) :
    (x >>= fun a => match a.toNat? with
      | some n => pure n
      | none => throw (.negativeAddress a)) = x >>= Ideal.locate := by
  cases x with
  | error f => rfl
  | ok a =>
    simp only [bind, Except.bind, Ideal.locate]
    split
    · rename_i n number
      have value := Word.toNat?_eq_some_iff.mp number
      rw [if_neg (by omega), value, Int.toNat_natCast]
      rfl
    · rename_i negative
      rw [if_pos (Word.toNat?_eq_none_iff.mp negative)]
      rfl

section Decoded

variable {w : Word} {i : Instruction} (decoded : Instruction.decode w = .ok i)
include decoded

theorem mode_eq {k : Nat} (counted : 0 < k) : m.mode i k = s.mode w k := by
  rw [mode, Instruction.mode, (s.operation_of_decoded decoded).2 k counted, ← refines.place,
    s.mode_ofDigit]

variable (small : s.ip + i.opcode.width < 0x8000000000000000)
include small

theorem operand_eq {k : Nat} (counted : 0 < k) (inside : k < i.opcode.width) :
    m.operand i k = s.operand w k := by
  rw [operand, refines.raw_eq (by omega), Ideal.operand, refines.mode_eq decoded counted]
  simp only [refines.relative_eq, refines.read_eq]
  rfl

theorem target_eq {k : Nat} (counted : 0 < k) (inside : k < i.opcode.width) :
    m.target i k = s.target w k := by
  have digit := (s.operation_of_decoded decoded).2 k counted
  rw [target, refines.raw_eq (by omega), Ideal.target, refines.mode_eq decoded counted]
  simp only [refines.relative_eq, refines.place, digit]
  cases s.mode w k with
  | error f => rfl
  | ok mode =>
    cases mode with
    | position => exact bind_locate (.ok _)
    | immediate => rfl
    | relative => exact bind_locate (s.exact _)

/-- Instructions that store agree if what they compute does. -/
theorem storeOf_eq (wide : i.opcode.width = 4) {f : Word → Word → Option Word}
    {g : Word → Word → Except Fault Word}
    (same : ∀ a b, g a b = match f a b with
      | some value => .ok value
      | none => .error (.overflow m.ip)) :
    (do
      let a ← s.operand w 1
      let b ← s.operand w 2
      let target ← s.target w 3
      return .write target (← g a b)) = (m.storeOf i f).map Ideal.Effect.ofAction := by
  rw [storeOf, refines.operand_eq decoded small (by decide) (by omega),
    refines.operand_eq decoded small (by decide) (by omega),
    refines.target_eq decoded small (by decide) (by omega)]
  cases s.operand w 1 with
  | error e => rfl
  | ok a =>
    cases s.operand w 2 with
    | error e => rfl
    | ok b =>
      cases s.target w 3 with
      | error e => rfl
      | ok target =>
        simp only [bind, Except.bind, same]
        cases f a b <;> rfl

theorem jumpIf_eq (wide : i.opcode.width = 3) {nonzero : Bool} {taken : Word → Prop}
    [DecidablePred taken] (same : ∀ a, taken a ↔ (a != 0) = nonzero) :
    (do
      let a ← s.operand w 1
      let b ← s.operand w 2
      return if taken a then .goto b else .skip) =
      (m.jumpIf i nonzero).map Ideal.Effect.ofAction := by
  rw [jumpIf, refines.operand_eq decoded small (by decide) (by omega),
    refines.operand_eq decoded small (by decide) (by omega)]
  cases s.operand w 1 with
  | error e => rfl
  | ok a =>
    cases s.operand w 2 with
    | error e => rfl
    | ok b =>
      simp only [bind, Except.bind, pure, Except.pure, Except.map, same]
      by_cases h : (a != 0) = nonzero
      · rw [if_pos h, beq_iff_eq.mpr h]
        rfl
      · rw [if_neg h, beq_eq_false_iff_ne.mpr h]
        rfl

theorem effect_eq : s.effect w i.opcode = (m.action i).map Ideal.Effect.ofAction := by
  have zero (a : Word) : a.toInt = 0 ↔ a = 0 := Int64.toInt_inj (y := 0)
  rw [action]
  cases o : i.opcode with
  | add => exact refines.storeOf_eq decoded small (by rw [o]; rfl) fun a b => refines.exact_eq _
  | mul => exact refines.storeOf_eq decoded small (by rw [o]; rfl) fun a b => refines.exact_eq _
  | lessThan =>
    refine refines.storeOf_eq (g := fun a b => .ok _) decoded small (by rw [o]; rfl) fun a b => ?_
    simp only [Word.ofBool, decide_eq_true_eq, Int64.lt_iff_toInt_lt]
  | equals =>
    refine refines.storeOf_eq (g := fun a b => .ok _) decoded small (by rw [o]; rfl) fun a b => ?_
    simp only [Word.ofBool, beq_iff_eq, Int64.toInt_inj]
  | input =>
    rw [Ideal.effect, refines.target_eq decoded small (by decide) (by rw [o]; decide)]
    cases s.target w 1 <;> rfl
  | output =>
    rw [Ideal.effect, refines.operand_eq decoded small (by decide) (by rw [o]; decide)]
    cases s.operand w 1 <;> rfl
  | jumpIfTrue =>
    refine refines.jumpIf_eq decoded small (by rw [o]; rfl) fun a => ?_
    simp only [ne_eq, zero, bne_iff_ne]
  | jumpIfFalse =>
    refine refines.jumpIf_eq decoded small (by rw [o]; rfl) fun a => ?_
    simp only [zero, bne_eq_false_iff_eq]
  | adjustBase =>
    rw [Ideal.effect, refines.operand_eq decoded small (by decide) (by rw [o]; decide)]
    cases s.operand w 1 with
    | error e => rfl
    | ok a =>
      simp only [bind, Except.bind, refines.exact_eq, ← refines.base, Word.add?]
      cases Word.ofInt? (m.base.toInt + a.toInt) <;> rfl
  | halt => rfl

end Decoded

theorem fetch_eq : m.memory.read m.ip = .ok s.word := by
  have cell := refines.read m.ip (by rw [refines.ip]; omega)
  rw [refines.ip, Int.toNat_natCast] at cell
  exact cell

/-- What is due in the ideal machine is what the machine plans. -/
theorem due_eq (inRange : s.InRange) :
    s.due = m.plan.map fun p => (p.opcode, Ideal.Effect.ofAction p.action) := by
  rw [plan, refines.fetch_eq, Ideal.due]
  cases decoded : Instruction.decode s.word with
  | error e =>
    have failed : (Instruction.decode s.word).mapError (·.at m.ip) = .error (e.at m.ip) := by
      rw [decoded]
      rfl
    rw [s.operation_of_error decoded, refines.place]
    simp only [bind, Except.bind, failed, Except.map]
  | ok i =>
    have read : (Instruction.decode s.word).mapError (·.at m.ip) = .ok i := by
      rw [decoded]
      rfl
    obtain ⟨operation, -⟩ := s.operation_of_decoded decoded
    rw [operation]
    simp only [bind, Except.bind, read, refines.effect_eq decoded (inRange.width operation)]
    cases m.action i <;> rfl

theorem put (target : Nat) (value : Word) :
    { m with memory := m.memory.set target value }.Refines (s.put target value) := by
  refine ⟨fun a nonneg => ?_, refines.ip, refines.base, refines.halted⟩
  have named : a.toInt = target ↔ a.toInt.toNat = target := by omega
  simp only [Memory.read_set, refines.read a nonneg, Ideal.put, named]
  split <;> rfl

theorem move {ip : Word} {n : Nat} (moved : ip.toInt = n) :
    { m with ip }.Refines { s with ip := n } :=
  ⟨refines.read, moved, refines.base, refines.halted⟩

theorem advance_eq {o : Opcode} (small : s.ip + o.width < 0x8000000000000000) :
    (m.advance o).1 = .ok .running ∧ (m.advance o).2.Refines (s.past o) := by
  rw [advance, refines.paramAddress_eq small, Ideal.past, Ideal.span_eq]
  exact ⟨rfl, refines.move (Int64.toInt_ofNat_of_lt small)⟩

/-- Carrying out a plan is carrying out its effect. -/
theorem commit_eq {p : Plan} (small : s.ip + p.opcode.width < 0x8000000000000000)
    (received : Word) :
    (m.commit p received).1 = (s.carryOut p.opcode received (.ofAction p.action)).1 ∧
      (m.commit p received).2.Refines (s.carryOut p.opcode received (.ofAction p.action)).2 := by
  obtain ⟨memory, ip, base, halted, debug, label⟩ := m
  obtain ⟨o, action⟩ := p
  cases action with
  | store a b target value => exact (refines.put target value).advance_eq small
  | input target => exact (refines.put target received).advance_eq small
  | output value => exact refines.advance_eq small
  | jump condition destination taken =>
    cases taken with
    | false => exact refines.advance_eq small
    | true =>
      simp only [commit, Ideal.Effect.ofAction, Ideal.carryOut]
      by_cases negative : destination < 0
      · have sign : destination.toInt < 0 := Int64.lt_iff_toInt_lt.mp negative
        rw [if_pos negative, if_pos sign]
        exact ⟨rfl, refines⟩
      · have sign : ¬ destination.toInt < 0 := fun h => negative (Int64.lt_iff_toInt_lt.mpr h)
        rw [if_neg negative, if_neg sign]
        exact ⟨rfl, refines.move (Int.toNat_of_nonneg (Int.not_lt.mp sign)).symm⟩
  | adjust delta base' =>
    have adjusted : Machine.Refines ⟨memory, ip, base', halted, debug, label⟩
        { s with base := base'.toInt } := ⟨refines.read, refines.ip, rfl, refines.halted⟩
    exact adjusted.advance_eq small
  | halt =>
    have last : s.ip + o.width < 0x8000000000000000 := small
    have width := o.width_pos
    have at' : ip.toInt = s.ip := refines.ip
    have next : (Int64.ofNat (s.ip + 1)).toInt = (s.ip + 1 : Nat) :=
      Int64.toInt_ofNat_of_lt (by omega)
    have room : Word.add? ip 1 = some (Int64.ofNat (s.ip + 1)) := by
      rw [Word.add?_eq_some_iff, next, at']
      rfl
    simp only [commit, stopHere, room]
    exact ⟨rfl, refines.read, next, refines.base, rfl⟩

end Machine.Refines

namespace Rig

variable {ι ω : Type}

/-- A rig and a bench whose machines hold the same and whose channels are the same. -/
structure Matches (r : Rig ι ω) (b : Bench ι ω) : Prop where
  machine : r.machine.Refines b.ideal
  input : r.input = b.input
  output : r.output = b.output

variable [Channel ι] [Channel ω] {r : Rig ι ω} {b : Bench ι ω}

def advance (r : Rig ι ω) : Shown × Rig ι ω := ((r.step.result, r.step.traffic), r.step.rig)

/-- A step of an instruction that is planned. -/
theorem Matches.step_planned (same : r.Matches b) {p : Plan} (running : r.machine.halted = false)
    (planned : r.machine.plan = .ok p)
    (small : b.ideal.ip + p.opcode.width < 0x8000000000000000)
    (due : b.ideal.due = .ok (p.opcode, .ofAction p.action)) :
    r.advance.1 = b.step.1 ∧ r.advance.2.Matches b.step.2 := by
  obtain ⟨ideal, input, output⟩ := b
  obtain ⟨refines, rfl, rfl⟩ := same
  have awake : ¬ ideal.halted = true := by
    rw [← refines.halted, running]
    nofun
  have demand := Machine.demand_of_plan running planned
  have done (received : Word) := refines.commit_eq small received
  have turned (received : Word) := Machine.turn_of_plan running planned received
  simp only [← turned] at done
  obtain ⟨o, action⟩ := p
  rw [Bench.step, if_neg awake, due, advance]
  cases action with
  | input target =>
    rw [step_of_word r demand]
    simp only [Ideal.Effect.ofAction]
    obtain ⟨got, rest⟩ := Channel.take r.input
    cases got with
    | error s => exact ⟨rfl, refines, rfl, rfl⟩
    | ok v => exact ⟨congrArg (·, _) (done v).1, (done v).2, rfl, rfl⟩
  | output v =>
    rw [step_of_room r demand]
    simp only [Ideal.Effect.ofAction]
    obtain ⟨accepted, rest⟩ := Channel.put r.output v
    cases accepted with
    | error s => exact ⟨rfl, refines, rfl, rfl⟩
    | ok u => exact ⟨congrArg (·, _) (done 0).1, (done 0).2, rfl, rfl⟩
  | jump condition destination taken =>
    rw [step_of_nothing r demand]
    cases taken <;> exact ⟨congrArg (·, _) (done 0).1, (done 0).2, rfl, rfl⟩
  | store x y target value | adjust delta base | halt =>
    rw [step_of_nothing r demand]
    exact ⟨congrArg (·, _) (done 0).1, (done 0).2, rfl, rfl⟩

/-- A step of a machine is a step of the ideal machine, as long as there is an address behind the
instruction. -/
theorem Matches.step (same : r.Matches b) (inRange : b.ideal.InRange) :
    r.advance.1 = b.step.1 ∧ r.advance.2.Matches b.step.2 := by
  have refines := same.machine
  by_cases halted : r.machine.halted = true
  · rw [advance, step_of_halted r halted, Bench.step, ← refines.halted, if_pos halted]
    exact ⟨rfl, same⟩
  · have running : r.machine.halted = false := Bool.eq_false_iff.mpr halted
    have due := refines.due_eq inRange
    cases planned : r.machine.plan with
    | error f =>
      rw [planned] at due
      rw [advance, step_of_fault r running planned, Bench.step, ← refines.halted, if_neg halted,
        due]
      exact ⟨rfl, same⟩
    | ok p =>
      rw [planned] at due
      exact same.step_planned running planned (inRange.width (Ideal.operation_of_due due)) due

end Rig

end Intcode
