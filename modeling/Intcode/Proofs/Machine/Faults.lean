import Intcode.Proofs.Machine.Turn

/-!
# Faults of a machine

The faults that a machine comes to by itself, and those that only a channel brings about. A step
that fails with one of the latter has been refused a use of a channel. A machine never waits by
itself.
-/

namespace Intcode

/-- A fault that no channel has a part in. -/
def Fault.Intrinsic : Fault → Prop
  | .unknownOpcode .. | .invalidMode .. | .negativeAddress _ | .overflow _ => True
  | .notConnected | .inputExhausted | .processorCrashed _ | .relayCrashed _ => False

/-- A stop that a machine comes to by itself: an intrinsic fault, or the crash at the last
address. -/
def Stop.Intrinsic : Stop → Prop
  | .fault f => f.Intrinsic
  | .blocked => False
  | .crashed => True

/-- A computation that fails, if at all, with an intrinsic fault. -/
def Contained {α : Type} (x : Except Fault α) : Prop := ∀ f, x = .error f → f.Intrinsic

theorem Contained.ok {α : Type} (a : α) : Contained (.ok a : Except Fault α) := by
  intro f h
  cases h

theorem Contained.error {α : Type} {f : Fault} (h : f.Intrinsic) :
    Contained (.error f : Except Fault α) := by
  intro g same
  cases same
  exact h

theorem Contained.bind {α β : Type} {x : Except Fault α} {k : α → Except Fault β}
    (first : Contained x) (next : ∀ a, Contained (k a)) : Contained (x >>= k) := by
  cases x with
  | error f => exact Contained.error (first f rfl)
  | ok a => exact next a

theorem Contained.decoded {α : Type} (x : Except DecodeError α) (ip : Word) :
    Contained (x.mapError (·.at ip)) := by
  cases x with
  | ok a => exact Contained.ok a
  | error e => cases e <;> exact Contained.error trivial

namespace Memory

theorem read_contained (m : Memory) (a : Word) : Contained (m.read a) := by
  rw [read]
  split
  · exact Contained.ok _
  · exact Contained.error trivial

end Memory

namespace Machine

variable (m : Machine) (i : Instruction)

theorem paramAddress_contained (offset : Nat) : Contained (m.paramAddress offset) := by
  rw [paramAddress]
  split
  · exact Contained.ok _
  · exact Contained.error trivial

theorem raw_contained (param : Nat) : Contained (m.raw param) :=
  (m.paramAddress_contained param).bind fun a => m.memory.read_contained a

theorem relative_contained (offset : Word) : Contained (m.relative offset) := by
  rw [relative]
  split
  · exact Contained.ok _
  · exact Contained.error trivial

theorem operand_contained (param : Nat) : Contained (m.operand i param) := by
  refine (m.raw_contained param).bind fun raw => ?_
  refine (Contained.decoded (i.mode param) m.ip).bind fun mode => ?_
  cases mode with
  | position => exact m.memory.read_contained raw
  | immediate => exact Contained.ok raw
  | relative => exact (m.relative_contained raw).bind fun a => m.memory.read_contained a

theorem target_contained (param : Nat) : Contained (m.target i param) := by
  refine (m.raw_contained param).bind fun raw => ?_
  refine (Contained.decoded (i.mode param) m.ip).bind fun mode => ?_
  cases mode with
  | position =>
    refine (Contained.ok raw).bind fun address => ?_
    dsimp only
    split
    · exact Contained.ok _
    · exact Contained.error trivial
  | immediate => exact Contained.error trivial
  | relative =>
    refine (m.relative_contained raw).bind fun address => ?_
    dsimp only
    split
    · exact Contained.ok _
    · exact Contained.error trivial

theorem storeOf_contained (f : Word → Word → Option Word) : Contained (m.storeOf i f) := by
  refine (m.operand_contained i 1).bind fun a => ?_
  refine (m.operand_contained i 2).bind fun b => ?_
  refine (m.target_contained i 3).bind fun target => ?_
  split
  · exact Contained.ok _
  · exact Contained.error trivial

theorem jumpIf_contained (nonzero : Bool) : Contained (m.jumpIf i nonzero) :=
  (m.operand_contained i 1).bind fun _ => (m.operand_contained i 2).bind fun _ => Contained.ok _

theorem action_contained : Contained (m.action i) := by
  rw [action]
  cases i.opcode with
  | add | mul | lessThan | equals => exact m.storeOf_contained i _
  | input => exact (m.target_contained i 1).bind fun _ => Contained.ok _
  | output => exact (m.operand_contained i 1).bind fun _ => Contained.ok _
  | jumpIfTrue | jumpIfFalse => exact m.jumpIf_contained i _
  | adjustBase =>
    refine (m.operand_contained i 1).bind fun delta => ?_
    split
    · exact Contained.ok _
    · exact Contained.error trivial
  | halt => exact Contained.ok _

theorem plan_contained : Contained m.plan :=
  (m.memory.read_contained m.ip).bind fun w =>
    (Contained.decoded (Instruction.decode w) m.ip).bind fun i =>
      (m.action_contained i).bind fun _ => Contained.ok _

theorem advance_stop {o : Opcode} {s : Stop} (h : (m.advance o).1 = .error s) : s.Intrinsic := by
  rw [advance] at h
  split at h
  · cases h
  · rename_i f failed
    obtain rfl := Except.error.inj h
    exact m.paramAddress_contained _ f failed

theorem commit_stop {p : Plan} {received : Word} {s : Stop}
    (h : (m.commit p received).1 = .error s) : s.Intrinsic := by
  obtain ⟨memory, ip, base, halted, debug, label⟩ := m
  obtain ⟨opcode, action⟩ := p
  cases action with
  | jump condition destination taken =>
    cases taken with
    | false => exact advance_stop _ h
    | true =>
      simp only [commit] at h
      split at h
      · obtain rfl := Except.error.inj h
        trivial
      · cases h
  | halt =>
    simp only [commit, stopHere] at h
    split at h
    · cases h
    · obtain rfl := Except.error.inj h
      trivial
  | _ => exact advance_stop _ h

/-- Whatever stops a machine whose channels do what it asks is its own. -/
theorem turn_stop {received : Word} {s : Stop} (h : (m.turn received).1 = .error s) :
    s.Intrinsic := by
  rw [turn] at h
  split at h
  · cases h
  · split at h
    · rename_i f failed
      obtain rfl := Except.error.inj h
      exact m.plan_contained f failed
    · exact m.commit_stop h

/-- A machine whose channels do what it asks does not wait. -/
theorem turn_ne_blocked (received : Word) : (m.turn received).1 ≠ .error .blocked :=
  fun h => m.turn_stop h

/-- A machine whose channels do what it asks does not lack a connection. -/
theorem turn_ne_notConnected (received : Word) :
    (m.turn received).1 ≠ .error (.fault .notConnected) :=
  fun h => m.turn_stop h

/-- The machine has executed a halt at the last address. -/
def BrokenDown (m : Machine) : Prop := m.halted = true ∧ m.ip.toInt = 0x7FFFFFFFFFFFFFFF

theorem advance_ne_crashed (o : Opcode) : (m.advance o).1 ≠ .error .crashed := by
  rw [advance]
  split <;> simp

theorem commit_crashed {p : Plan} {received : Word}
    (h : (m.commit p received).1 = .error .crashed) : (m.commit p received).2.BrokenDown := by
  obtain ⟨memory, ip, base, halted, debug, label⟩ := m
  obtain ⟨opcode, action⟩ := p
  cases action with
  | halt =>
    simp only [commit, stopHere] at h ⊢
    split at h
    · cases h
    · rename_i edge
      have high := Word.ofInt?_eq_none_iff.mp edge
      have one : (1 : Word).toInt = 1 := by decide
      have bound := Int64.toInt_lt ip
      have low := Int64.le_toInt ip
      refine ⟨rfl, ?_⟩
      dsimp only
      omega
  | jump condition destination taken =>
    cases taken with
    | false => exact absurd h (advance_ne_crashed _ _)
    | true =>
      simp only [commit] at h
      split at h <;> cases h
  | _ => exact absurd h (advance_ne_crashed _ _)

/-- Only a halt at the last address crashes a machine whose channels do what it asks. -/
theorem turn_crashed {received : Word} (h : (m.turn received).1 = .error .crashed) :
    (m.turn received).2.BrokenDown := by
  rw [turn] at h ⊢
  split
  · rename_i halted
    rw [if_pos halted] at h
    cases h
  · rename_i running
    rw [if_neg running] at h
    split
    · rename_i failed
      rw [failed] at h
      cases h
    · rename_i planned
      rw [planned] at h
      exact m.commit_crashed h

end Machine

end Intcode
