import Intcode.Instruction
import Mathlib.Algebra.Group.Nat.Defs

/-!
# Decoding

What decoding an instruction word comes to, told by the number that the word stands for: the two
low digits of its numeral name the operation and each digit above them is the mode of a parameter.
-/

namespace Intcode

namespace Instruction

theorem decode_of_negative {w : Word} (negative : w.toInt < 0) :
    decode w = .error (.unknownOpcode w) := by
  rw [decode, Word.toNat?_eq_none_iff.mpr negative]

theorem decode_of_nat {w : Word} {n : Nat} (value : w.toInt = n) :
    decode w = match Opcode.ofCode? (n % 100) with
      | some opcode => .ok { opcode, modes := n / 100 }
      | none => .error (.unknownOpcode (Int64.ofNat (n % 100))) := by
  have low : Word.toNat? (Int64.ofNat (n % 100)) = some (n % 100) := by
    rw [Word.toNat?_eq_some_iff]
    exact Int64.toInt_ofNat_of_lt (by omega)
  simp only [decode, Word.toNat?_eq_some_iff.mpr value, Opcode.ofWord, low, Option.bind_some]
  cases Opcode.ofCode? (n % 100) <;> rfl

theorem digitOf_eq (modes k : Nat) : digitOf modes (k + 1) = modes / 10 ^ k % 10 := by
  induction k generalizing modes with
  | zero => rw [digitOf, Nat.pow_zero, Nat.div_one]
  | succ k ih => rw [digitOf, ih, Nat.div_div_eq_div_mul, Nat.pow_succ']

/-- The operation and the mode digits of an instruction are digits of its word. -/
theorem exists_of_decode {w : Word} {i : Instruction} (decoded : decode w = .ok i) :
    ∃ n : Nat, w.toInt = n ∧ n % 100 = i.opcode.code ∧ i.modes = n / 100 := by
  by_cases negative : w.toInt < 0
  · rw [decode_of_negative negative] at decoded
    cases decoded
  · obtain ⟨n, value⟩ := Int.eq_ofNat_of_zero_le (Int.not_lt.mp negative)
    rw [decode_of_nat value] at decoded
    cases operation : Opcode.ofCode? (n % 100) with
    | none =>
      rw [operation] at decoded
      cases decoded
    | some o =>
      rw [operation] at decoded
      obtain rfl := Except.ok.inj decoded
      exact ⟨n, value, Opcode.ofCode?_eq_some_iff.mp operation, rfl⟩

theorem decode_of_code {w : Word} {n : Nat} {o : Opcode} (value : w.toInt = n)
    (code : n % 100 = o.code) : decode w = .ok { opcode := o, modes := n / 100 } := by
  rw [decode_of_nat value, Opcode.ofCode?_eq_some_iff.mpr code]

/-- Two numerals end in the same digits if their codes and so many mode digits are the same. -/
theorem mod_eq_mod_iff (n n' count : Nat) :
    n % 10 ^ (count + 2) = n' % 10 ^ (count + 2) ↔ n % 100 = n' % 100 ∧
      ∀ k < count, digitOf (n / 100) (k + 1) = digitOf (n' / 100) (k + 1) := by
  induction count with
  | zero => simp
  | succ count ih =>
    have digit (m : Nat) : digitOf (m / 100) (count + 1) = m / 10 ^ (count + 2) % 10 := by
      rw [digitOf_eq, Nat.div_div_eq_div_mul, Nat.pow_add 10 count 2, Nat.mul_comm]
    rw [Nat.forall_lt_succ_right, ← and_assoc, ← ih, digit, digit]
    have split (m : Nat) : m % 10 ^ (count + 1 + 2) =
        m % 10 ^ (count + 2) + 10 ^ (count + 2) * (m / 10 ^ (count + 2) % 10) :=
      Nat.mod_pow_succ
    constructor
    · intro same
      have low := congrArg (· % 10 ^ (count + 2)) same
      simp only [split, Nat.add_mul_mod_self_left, Nat.mod_mod] at low
      rw [split, split, low] at same
      exact ⟨low, Nat.eq_of_mul_eq_mul_left (Nat.pow_pos (by decide)) (Nat.add_left_cancel same)⟩
    · rintro ⟨low, high⟩
      rw [split, split, low, high]

end Instruction

/-- No two digits stand for one mode. -/
theorem Mode.eq_of_ofDigit {d d' : Int} {mode : Mode} (left : ofDigit d = .ok mode)
    (right : ofDigit d' = .ok mode) : d = d' := by
  unfold ofDigit at left right
  split at left <;> cases left <;> split at right <;> cases right <;> rfl

end Intcode
