import Intcode.Proofs.Disassembly.Line
import Intcode.Proofs.Disassembly.Text
import Intcode.Proofs.Machine.Address
import Intcode.Proofs.Machine.FailedStep

/-!
# Lines and steps

The line at the address of the next instruction says what the next step does. What a line means is
told here from its operands as they are shown, without the instruction word: an operand names an
address or is a value, and an operation does something with its operands. A step that goes through
does what the line means. Where the line is a word of data, no step goes through.
-/

namespace Intcode

def Opcode.compute? : Opcode → Option (Word → Word → Option Word)
  | add => some Word.add?
  | mul => some Word.mul?
  | lessThan => some fun a b => some (Word.ofBool (a < b))
  | equals => some fun a b => some (Word.ofBool (a == b))
  | input | output | jumpIfTrue | jumpIfFalse | adjustBase | halt => none

def Opcode.jumpsIf? : Opcode → Option Bool
  | jumpIfTrue => some true
  | jumpIfFalse => some false
  | add | mul | lessThan | equals | input | output | adjustBase | halt => none

theorem Memory.read_eq_ok_iff {memory : Memory} {a v : Word} :
    memory.read a = .ok v ↔ ∃ n : Nat, a.toInt = n ∧ v = memory.get n := by
  constructor
  · intro fetched
    cases address : a.toNat? with
    | none =>
      rw [read, address] at fetched
      cases fetched
    | some n =>
      rw [read, address] at fetched
      exact ⟨n, Word.toNat?_eq_some_iff.mp address, (Except.ok.inj fetched).symm⟩
  · rintro ⟨n, address, rfl⟩
    rw [read, Word.toNat?_eq_some_iff.mpr address]

theorem Memory.get_of_dense {memory : Memory} {n : Nat} (dense : n < memory.size) :
    memory.get n = memory.cells.getD n 0 := by
  rw [get, Array.getD_eq_getD_getElem?, Array.getElem?_eq_getElem dense, Option.getD_some]

namespace Machine

variable {m : Machine} {i : Instruction} {k : Nat}

inductive Names (m : Machine) : Mode × Word → Nat → Prop
  | position {raw : Word} {n : Nat} (address : raw.toInt = n) : Names m (.position, raw) n
  | relative {raw : Word} {n : Nat} (sum : m.base.toInt + raw.toInt = n) :
    Names m (.relative, raw) n

/-- The value of an operand: the word itself or the content of the cell that it names. -/
inductive Reads (m : Machine) : Mode × Word → Word → Prop
  | immediate (v : Word) : Reads m (.immediate, v) v
  | cell {p : Mode × Word} {n : Nat} (named : m.Names p n) : Reads m p (m.memory.get n)

inductive Does (m : Machine) : Opcode → List (Mode × Word) → Action → Prop
  | store {o : Opcode} {f : Word → Word → Option Word} {x y z : Mode × Word} {a b value : Word}
    {target : Nat} (operation : o.compute? = some f) (left : m.Reads x a) (right : m.Reads y b)
    (place : m.Names z target) (computed : f a b = some value) :
    Does m o [x, y, z] (.store a b target value)
  | input {x : Mode × Word} {target : Nat} (place : m.Names x target) :
    Does m .input [x] (.input target)
  | output {x : Mode × Word} {v : Word} (value : m.Reads x v) : Does m .output [x] (.output v)
  | jump {o : Opcode} {nonzero : Bool} {x y : Mode × Word} {c d : Word}
    (sense : o.jumpsIf? = some nonzero) (condition : m.Reads x c) (destination : m.Reads y d) :
    Does m o [x, y] (.jump c d ((c != 0) == nonzero))
  | adjust {x : Mode × Word} {delta base : Word} (value : m.Reads x delta)
    (sum : base.toInt = m.base.toInt + delta.toInt) : Does m .adjustBase [x] (.adjust delta base)
  | halt : Does m .halt [] .halt

structure Param (m : Machine) (i : Instruction) (k : Nat) (p : Mode × Word) : Prop where
  mode : m.mode i k = .ok p.1
  raw : m.raw k = .ok p.2

theorem mode_eq_ok_iff {mode : Mode} : m.mode i k = .ok mode ↔ i.mode k = .ok mode := by
  rw [Machine.mode]
  cases i.mode k with
  | error e => exact iff_of_false nofun nofun
  | ok valid =>
    show (Except.ok valid : Except Fault Mode) = .ok mode ↔ _
    simp only [Except.ok.injEq]

/-- An address that is computed as a checked sum is the sum. -/
theorem toInt_of_sum {x y a : Word} {f : Fault} (sum : (match Word.add? x y with
    | some b => .ok b
    | none => .error f : Except Fault Word) = .ok a) : a.toInt = x.toInt + y.toInt := by
  cases added : Word.add? x y with
  | none =>
    rw [added] at sum
    cases sum
  | some b =>
    rw [added] at sum
    obtain rfl := Except.ok.inj sum
    exact Word.add?_eq_some_iff.mp added

theorem toInt_of_relative {offset a : Word} (sum : m.relative offset = .ok a) :
    a.toInt = m.base.toInt + offset.toInt :=
  toInt_of_sum sum

theorem toInt_of_paramAddress {offset : Nat} {a : Word} (small : offset < 0x8000000000000000)
    (sum : m.paramAddress offset = .ok a) : a.toInt = m.ip.toInt + offset := by
  rw [toInt_of_sum sum, Int64.toInt_ofNat_of_lt small]

theorem exists_of_operand {v : Word} (resolved : m.operand i k = .ok v) :
    ∃ p, m.Param i k p ∧ m.Reads p v := by
  obtain ⟨raw, fetched, resolved⟩ := exists_of_bind_eq_ok resolved
  obtain ⟨mode, valid, resolved⟩ := exists_of_bind_eq_ok resolved
  refine ⟨(mode, raw), ⟨valid, fetched⟩, ?_⟩
  cases mode with
  | position =>
    obtain ⟨n, address, rfl⟩ := Memory.read_eq_ok_iff.mp resolved
    exact .cell (.position address)
  | immediate =>
    obtain rfl := Except.ok.inj resolved
    exact .immediate raw
  | relative =>
    obtain ⟨a, sum, resolved⟩ := exists_of_bind_eq_ok resolved
    obtain ⟨n, address, rfl⟩ := Memory.read_eq_ok_iff.mp resolved
    exact .cell (.relative ((toInt_of_relative sum).symm.trans address))

theorem toInt_of_toNat {a : Word} {n : Nat} (located : (match a.toNat? with
    | some n => pure n
    | none => throw (.negativeAddress a) : Except Fault Nat) = .ok n) : a.toInt = n := by
  cases number : a.toNat? with
  | none =>
    rw [number] at located
    cases located
  | some n' =>
    rw [number] at located
    obtain rfl := Except.ok.inj located
    exact Word.toNat?_eq_some_iff.mp number

theorem exists_of_target {n : Nat} (resolved : m.target i k = .ok n) :
    ∃ p, m.Param i k p ∧ m.Names p n := by
  obtain ⟨raw, fetched, resolved⟩ := exists_of_bind_eq_ok resolved
  obtain ⟨mode, valid, resolved⟩ := exists_of_bind_eq_ok resolved
  refine ⟨(mode, raw), ⟨valid, fetched⟩, ?_⟩
  cases mode with
  | position => exact .position (toInt_of_toNat resolved)
  | immediate => cases resolved
  | relative =>
    obtain ⟨a, sum, located⟩ := exists_of_bind_eq_ok resolved
    exact .relative ((toInt_of_relative sum).symm.trans (toInt_of_toNat located))

structure Params (m : Machine) (i : Instruction) (shown : List (Mode × Word)) : Prop where
  length : shown.length = i.opcode.arity
  each : ∀ k (h : k < shown.length), m.Param i (k + 1) shown[k]

theorem does_of_storeOf {f : Word → Word → Option Word} {act : Action}
    (operation : i.opcode.compute? = some f) (wide : i.opcode.arity = 3)
    (resolved : m.storeOf i f = .ok act) :
    ∃ shown, m.Params i shown ∧ m.Does i.opcode shown act := by
  obtain ⟨a, left, resolved⟩ := exists_of_bind_eq_ok resolved
  obtain ⟨b, right, resolved⟩ := exists_of_bind_eq_ok resolved
  obtain ⟨target, place, resolved⟩ := exists_of_bind_eq_ok resolved
  obtain ⟨x, first, left⟩ := exists_of_operand left
  obtain ⟨y, second, right⟩ := exists_of_operand right
  obtain ⟨z, third, place⟩ := exists_of_target place
  refine ⟨[x, y, z], ⟨wide.symm, ?_⟩, ?_⟩
  · rintro (_ | _ | _ | k) h
    · exact first
    · exact second
    · exact third
    · exact absurd (show k + 3 < 3 from h) (by omega)
  · cases computed : f a b with
    | none =>
      rw [computed] at resolved
      cases resolved
    | some value =>
      rw [computed] at resolved
      obtain rfl := Except.ok.inj resolved
      exact .store operation left right place computed

theorem does_of_jumpIf {nonzero : Bool} {act : Action} (sense : i.opcode.jumpsIf? = some nonzero)
    (wide : i.opcode.arity = 2) (resolved : m.jumpIf i nonzero = .ok act) :
    ∃ shown, m.Params i shown ∧ m.Does i.opcode shown act := by
  obtain ⟨c, condition, resolved⟩ := exists_of_bind_eq_ok resolved
  obtain ⟨d, destination, resolved⟩ := exists_of_bind_eq_ok resolved
  obtain ⟨x, first, condition⟩ := exists_of_operand condition
  obtain ⟨y, second, destination⟩ := exists_of_operand destination
  obtain rfl := Except.ok.inj resolved
  refine ⟨[x, y], ⟨wide.symm, ?_⟩, .jump sense condition destination⟩
  rintro (_ | _ | k) h
  · exact first
  · exact second
  · exact absurd (show k + 2 < 2 from h) (by omega)

theorem Params.single {p : Mode × Word} (wide : i.opcode.arity = 1) (only : m.Param i 1 p) :
    m.Params i [p] := by
  refine ⟨wide.symm, ?_⟩
  rintro (_ | k) h
  · exact only
  · simp at h

/-- An action whose parameters have been resolved is what the operation does with them. -/
theorem does_of_action {act : Action} (resolved : m.action i = .ok act) :
    ∃ shown, m.Params i shown ∧ m.Does i.opcode shown act := by
  obtain ⟨o, modes⟩ := i
  cases o with
  | add | mul | lessThan | equals => exact does_of_storeOf rfl rfl resolved
  | jumpIfTrue | jumpIfFalse => exact does_of_jumpIf rfl rfl resolved
  | input =>
    obtain ⟨target, place, resolved⟩ := exists_of_bind_eq_ok resolved
    obtain ⟨x, only, place⟩ := exists_of_target place
    obtain rfl := Except.ok.inj resolved
    exact ⟨[x], .single rfl only, .input place⟩
  | output =>
    obtain ⟨v, value, resolved⟩ := exists_of_bind_eq_ok resolved
    obtain ⟨x, only, value⟩ := exists_of_operand value
    obtain rfl := Except.ok.inj resolved
    exact ⟨[x], .single rfl only, .output value⟩
  | adjustBase =>
    obtain ⟨delta, value, resolved⟩ := exists_of_bind_eq_ok resolved
    obtain ⟨x, only, value⟩ := exists_of_operand value
    cases sum : Word.add? m.base delta with
    | none =>
      rw [sum] at resolved
      cases resolved
    | some base =>
      rw [sum] at resolved
      obtain rfl := Except.ok.inj resolved
      exact ⟨[x], .single rfl only, .adjust value (Word.add?_eq_some_iff.mp sum)⟩
  | halt =>
    obtain rfl := Except.ok.inj resolved
    exact ⟨[], ⟨rfl, nofun⟩, .halt⟩

/-- The parameters that are resolved are those that the image shows. -/
theorem Params.shown {a : Nat} {shown : List (Mode × Word)} (params : m.Params i shown)
    (here : m.ip.toInt = a) (decoded : Instruction.decode (m.memory.cells.getD a 0) = .ok i)
    (whole : a + i.opcode.width ≤ m.memory.size) :
    Disassembly.Shown m.memory.cells a i shown := by
  refine ⟨decoded, whole, params.length, fun k h => ?_, fun k h => ?_⟩
  · exact mode_eq_ok_iff.mp (params.each k h).mode
  · have arity : shown.length = i.opcode.width - 1 := params.length
    have small : k + 1 < 0x8000000000000000 := by
      have := width_small i.opcode
      omega
    obtain ⟨b, address, fetched⟩ := exists_of_bind_eq_ok (params.each k h).raw
    obtain ⟨n, number, word⟩ := Memory.read_eq_ok_iff.mp fetched
    have place := toInt_of_paramAddress small address
    obtain rfl : n = a + k + 1 := by omega
    rw [word, Memory.get_of_dense (by omega)]

/-- A machine that has a plan is at an instruction, and the plan is to do what its line says. -/
theorem exists_of_plan {p : Plan} {a : Nat} (planned : m.plan = .ok p) (here : m.ip.toInt = a)
    (dense : a < m.memory.size)
    (whole : ∀ i, Instruction.decode (m.memory.cells.getD a 0) = .ok i →
      a + i.opcode.width ≤ m.memory.size) :
    ∃ i shown, p.opcode = i.opcode ∧ Disassembly.Shown m.memory.cells a i shown ∧
      m.Params i shown ∧ m.Does p.opcode shown p.action := by
  obtain ⟨w, i, fetched, decoded, operation, resolved⟩ := exists_action_of_plan planned
  obtain ⟨shown, params, does⟩ := does_of_action resolved
  have word : w = m.memory.cells.getD a 0 := by
    obtain ⟨n, number, rfl⟩ := Memory.read_eq_ok_iff.mp fetched
    obtain rfl : n = a := Int.ofNat_inj.mp (number.symm.trans here)
    exact Memory.get_of_dense dense
  rw [word] at decoded
  exact ⟨i, shown, operation, params.shown here decoded (whole i decoded), params,
    operation ▸ does⟩

theorem Does.halt_opcode {o : Opcode} {shown : List (Mode × Word)}
    (does : m.Does o shown .halt) : o = .halt := by
  cases does
  rfl

theorem ip_of_advance {o : Opcode} {progress : Progress} (went : (m.advance o).1 = .ok progress) :
    (m.advance o).2.ip.toInt = m.ip.toInt + o.width := by
  rw [advance] at went ⊢
  split at went
  · rename_i computed
    exact toInt_of_paramAddress (width_small o) computed
  · cases went

theorem ip_of_commit {p : Plan} {received : Word} {progress : Progress}
    (halt : p.action = .halt → p.opcode = .halt)
    (went : (m.commit p received).1 = .ok progress) :
    (∀ c d, p.action = .jump c d true → (m.commit p received).2.ip = d) ∧
      ((∀ c d, p.action ≠ .jump c d true) →
        (m.commit p received).2.ip.toInt = m.ip.toInt + p.opcode.width) := by
  obtain ⟨memory, ip, base, halted, debug, label⟩ := m
  obtain ⟨o, act⟩ := p
  cases act with
  | store | input | output | adjust => exact ⟨by simp, fun _ => ip_of_advance went⟩
  | jump c d taken =>
    cases taken with
    | false => exact ⟨by simp, fun _ => ip_of_advance went⟩
    | true =>
      by_cases negative : d < 0
      · simp only [commit, if_pos negative] at went
        cases went
      · refine ⟨fun c' d' same => ?_, fun passed => absurd rfl (passed c d)⟩
        obtain ⟨-, rfl, -⟩ := Action.jump.inj same
        simp only [commit, if_neg negative]
  | halt =>
    obtain rfl : o = .halt := halt rfl
    refine ⟨by simp, fun _ => ?_⟩
    cases sum : Word.add? ip 1 with
    | none =>
      simp only [commit, stopHere, sum] at went
      cases went
    | some next =>
      simp only [commit, stopHere, sum]
      exact Word.add?_eq_some_iff.mp sum

end Machine

namespace Rig

variable {ι ω : Type} [Channel ι] [Channel ω] {r : Rig ι ω}

/-- What a step that goes through has to do with the line at the address of its instruction. -/
structure Follows (r : Rig ι ω) (l : Disassembly.Line) (i : Instruction) (p : Plan)
    (shown : List (Mode × Word)) : Prop where
  fetched : ∃ w, r.machine.memory.read r.machine.ip = .ok w ∧ Instruction.decode w = .ok i
  planned : r.machine.plan = .ok p
  operation : p.opcode = i.opcode
  /-- The text stands for this operation with these operands, and for nothing else. -/
  text : ∀ l' : Disassembly.Line, l'.text = l.text ↔ l' = .instruction p.opcode shown
  /-- Each parameter has been resolved in the mode and from the word that are shown. -/
  params : r.machine.Params i shown
  /-- What is carried out is what the operation does with the operands that are shown. -/
  does : r.machine.Does p.opcode shown p.action
  jumped : ∀ c d, p.action = .jump c d true → r.step.rig.machine.ip = d
  passed : (∀ c d, p.action ≠ .jump c d true) →
    r.step.rig.machine.ip.toInt = r.machine.ip.toInt + l.width

/-- At an address of dense memory the disassembler and the interpreter agree. -/
theorem step_agrees_with_line (r : Rig ι ω) {a : Nat} (running : r.machine.halted = false)
    (here : r.machine.ip.toInt = a) (dense : a < r.machine.memory.size)
    (whole : ∀ i, Instruction.decode (r.machine.memory.cells.getD a 0) = .ok i →
      a + i.opcode.width ≤ r.machine.memory.size) :
    let l := Disassembly.lineAt r.machine.memory.cells a
    ((∃ s, l.text = "DATA " ++ s) → ∃ f, r.step = ⟨.error (.fault f), r, none⟩) ∧
      ∀ progress, r.step.result = .ok progress → ∃ i p shown, Follows r l i p shown := by
  intro l
  constructor
  · rintro ⟨s, data⟩
    cases planned : r.machine.plan with
    | error f => exact ⟨f, step_of_fault r running planned⟩
    | ok p =>
      obtain ⟨i, shown, -, there, -⟩ := Machine.exists_of_plan planned here dense whole
      have line : l = .instruction i.opcode shown := there.lineAt_eq
      rw [line] at data
      exact absurd data (Disassembly.Line.text_instruction_ne _ _ _)
  · intro progress went
    obtain ⟨p, received, planned, committed, machine⟩ := exists_commit_of_ok running went
    obtain ⟨i, shown, operation, there, params, does⟩ :=
      Machine.exists_of_plan planned here dense whole
    have line : l = .instruction p.opcode shown := operation ▸ there.lineAt_eq
    have fetched : r.machine.memory.read r.machine.ip =
        .ok (r.machine.memory.cells.getD a 0) :=
      Memory.read_eq_ok_iff.mpr ⟨a, here, (Memory.get_of_dense dense).symm⟩
    have moved := Machine.ip_of_commit (fun halt => (halt ▸ does).halt_opcode) committed
    rw [← machine] at moved
    refine ⟨i, p, shown, ⟨_, fetched, there.decoded⟩, planned, operation, fun l' => ?_, params,
      does, moved.1, ?_⟩
    · constructor
      · intro same
        exact (Disassembly.Line.eq_of_text_eq same).trans line
      · rintro rfl
        rw [line]
    · rw [line]
      exact moved.2

end Rig

/-- A multiplication that stores a halt behind itself is carried out as it is shown. A word with a
mode that there is not is shown as data, and no step goes through. -/
theorem multiplication_agrees_with_line :
    (let r : Rig Tape Tape := ⟨.load ⟨#[1002, 4, 3, 4, 33]⟩, .ofList [], {}, #[]⟩
      ∃ i p shown, r.step.result = .ok .running ∧
        Rig.Follows r (Disassembly.lineAt r.machine.memory.cells 0) i p shown) ∧
    (let r : Rig Tape Tape := ⟨.load ⟨#[304, 1, 99]⟩, .ofList [], {}, #[]⟩
      ∃ f, r.step = ⟨.error (.fault f), r, none⟩) := by
  constructor
  · intro r
    have agrees := Rig.step_agrees_with_line r (a := 0) rfl rfl (by decide) fun i decoded => by
      have known : Instruction.decode 1002 = .ok ⟨.mul, 10⟩ := by rfl
      obtain rfl := Except.ok.inj (known.symm.trans decoded)
      decide
    have went : r.step.result = .ok .running := by rfl
    obtain ⟨i, p, shown, follows⟩ := agrees.2 .running went
    exact ⟨i, p, shown, went, follows⟩
  · intro r
    have agrees := Rig.step_agrees_with_line r (a := 0) rfl rfl (by decide) fun i decoded => by
      have known : Instruction.decode 304 = .ok ⟨.output, 3⟩ := by rfl
      obtain rfl := Except.ok.inj (known.symm.trans decoded)
      decide
    exact agrees.1 ⟨"304", by decide +kernel⟩

end Intcode
