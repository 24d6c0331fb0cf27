import Intcode.Proofs.Instruction
import Mathlib.Algebra.BigOperators.Intervals
import Mathlib.Algebra.BigOperators.Ring.Finset

/-!
# Digits of an instruction word

Which words are instructions, and how a word is put together again from the operation and the mode
digits that it is read as. Above the two digits of the operation a word has room for seventeen mode
digits.
-/

namespace Intcode

theorem Opcode.code_lt (o : Opcode) : o.code < 100 := by
  cases o <;> decide

namespace Instruction

variable {w : Word} {i : Instruction}

/-- An instruction determines the word that it has been read from. -/
theorem decode_eq_ok_iff : decode w = .ok i ↔ i.word? = some w := by
  have small := i.opcode.code_lt
  rw [word?, Word.ofInt?_eq_some_iff]
  constructor
  · intro decoded
    obtain ⟨n, value, code, modes⟩ := exists_of_decode decoded
    omega
  · intro value
    have code : (i.opcode.code + 100 * i.modes) % 100 = i.opcode.code := by omega
    have modes : (i.opcode.code + 100 * i.modes) / 100 = i.modes := by omega
    rw [decode_of_code (by exact_mod_cast value) code, modes]

theorem decode_isOk_iff : (∃ i, decode w = .ok i) ↔
    0 ≤ w.toInt ∧ ∃ o : Opcode, w.toInt % 100 = o.code := by
  constructor
  · rintro ⟨i, decoded⟩
    obtain ⟨n, value, code, -⟩ := exists_of_decode decoded
    exact ⟨by omega, i.opcode, by omega⟩
  · rintro ⟨nonneg, o, code⟩
    obtain ⟨n, value⟩ := Int.eq_ofNat_of_zero_le nonneg
    have low : n % 100 = o.code := by omega
    exact ⟨_, decode_of_code value low⟩

/-- Of a word that is not negative only the two low digits are reported. -/
theorem decode_of_no_code (nonneg : 0 ≤ w.toInt) (none : ∀ o : Opcode, w.toInt % 100 ≠ o.code) :
    ∃ low : Word, low.toInt = w.toInt % 100 ∧ decode w = .error (.unknownOpcode low) := by
  obtain ⟨n, value⟩ := Int.eq_ofNat_of_zero_le nonneg
  refine ⟨Int64.ofNat (n % 100), ?_, ?_⟩
  · rw [Int64.toInt_ofNat_of_lt (by omega)]
    omega
  · rw [decode_of_nat value]
    cases operation : Opcode.ofCode? (n % 100) with
    | none => rfl
    | some o =>
      have code := Opcode.ofCode?_eq_some_iff.mp operation
      exact absurd (by omega) (none o)

theorem digitOf_div_hundred (n k : Nat) : digitOf (n / 100) (k + 1) = n / 10 ^ (k + 2) % 10 := by
  rw [digitOf_eq, Nat.div_div_eq_div_mul, Nat.pow_add 10 k 2, Nat.mul_comm]

/-- The code and the first mode digits, each at its place, make up the low digits of a word: with
one more digit the sum and the remainder grow by the same. -/
theorem code_add_sum_digitOf (n count : Nat) :
    n % 100 + ∑ k ∈ Finset.Icc 1 count, digitOf (n / 100) k * 10 ^ (k + 1) =
      n % 10 ^ (count + 2) := by
  induction count with
  | zero =>
    rw [Finset.Icc_eq_empty (by decide), Finset.sum_empty]
    rfl
  | succ count ih =>
    rw [Finset.sum_Icc_succ_top (Nat.le_add_left 1 count), ← Nat.add_assoc, ih,
      digitOf_div_hundred, Nat.mul_comm]
    exact Nat.mod_pow_succ.symm

section Decoded

variable (decoded : decode w = .ok i)
include decoded

theorem digit_of_decode {k : Nat} (one : 1 ≤ k) :
    (i.digit k : Int) = w.toInt / 10 ^ (k + 1) % 10 := by
  obtain ⟨n, value, -, modes⟩ := exists_of_decode decoded
  obtain ⟨k, rfl⟩ := Nat.exists_eq_add_of_le' one
  rw [digit, modes, digitOf_div_hundred, value]
  norm_cast

/-- A word is less than a one with nineteen zeros, so it has no more than nineteen digits. -/
theorem digit_of_decode_of_lt {k : Nat} (high : 17 < k) : i.digit k = 0 := by
  have short := Int64.toInt_lt w
  have long : (10 : Int) ^ 19 ≤ 10 ^ (k + 1) := by
    exact_mod_cast Nat.pow_le_pow_right (by decide) (by omega)
  obtain ⟨n, value, -, -⟩ := exists_of_decode decoded
  have gone : w.toInt / 10 ^ (k + 1) = 0 := Int.ediv_eq_zero_of_lt (by omega) (by omega)
  have digit := digit_of_decode decoded (k := k) (by omega)
  rw [gone] at digit
  exact_mod_cast digit

/-- The low digits of a word are made up of the code and the first mode digits. -/
theorem sum_of_decode (count : Nat) :
    i.opcode.code + ∑ k ∈ Finset.Icc 1 count, (i.digit k : Int) * 10 ^ (k + 1) =
      w.toInt % 10 ^ (count + 2) := by
  obtain ⟨n, value, code, modes⟩ := exists_of_decode decoded
  have sum := code_add_sum_digitOf n count
  rw [code, ← modes] at sum
  rw [value]
  exact_mod_cast sum

theorem eq_sum_of_decode :
    w.toInt = i.opcode.code + ∑ k ∈ Finset.Icc 1 17, (i.digit k : Int) * 10 ^ (k + 1) := by
  have short := Int64.toInt_lt w
  obtain ⟨n, value, -, -⟩ := exists_of_decode decoded
  have whole : w.toInt % 10 ^ (17 + 2) = w.toInt := Int.emod_eq_of_lt (by omega) (by omega)
  rw [sum_of_decode decoded 17, whole]

end Decoded

/-- Decoding is exact, and it can be undone. A word is an instruction exactly if it is not negative
and its two low digits are the code of an operation. If it is negative, the word itself is reported,
and otherwise its two low digits. The mode digits of an instruction are the digits of its word from
the third on, the word is the sum of the code and of these digits at their places, and no other word
is the same instruction. -/
theorem decoding_is_positional (w : Word) :
    ((∃ i, decode w = .ok i) ↔ 0 ≤ w.toInt ∧ ∃ o : Opcode, w.toInt % 100 = o.code) ∧
    (w.toInt < 0 → decode w = .error (.unknownOpcode w)) ∧
    (0 ≤ w.toInt → (∀ o : Opcode, w.toInt % 100 ≠ o.code) →
      ∃ low : Word, low.toInt = w.toInt % 100 ∧ decode w = .error (.unknownOpcode low)) ∧
    ∀ i, decode w = .ok i →
      w.toInt % 100 = i.opcode.code ∧
      (∀ k, 1 ≤ k → (i.digit k : Int) = w.toInt / 10 ^ (k + 1) % 10) ∧
      (∀ k, 17 < k → i.digit k = 0) ∧
      w.toInt = i.opcode.code + ∑ k ∈ Finset.Icc 1 17, (i.digit k : Int) * 10 ^ (k + 1) ∧
      i.word? = some w ∧
      ∀ w', decode w' = .ok i → w' = w := by
  refine ⟨decode_isOk_iff, decode_of_negative, decode_of_no_code, fun i decoded => ?_⟩
  have back := decode_eq_ok_iff.mp decoded
  refine ⟨?_, fun k => digit_of_decode decoded, fun k => digit_of_decode_of_lt decoded,
    eq_sum_of_decode decoded, back, fun w' same => ?_⟩
  · obtain ⟨n, value, code, -⟩ := exists_of_decode decoded
    omega
  · rw [decode_eq_ok_iff, back] at same
    exact (Option.some.inj same).symm

/-- A word with three mode digits, a negative one, and one whose low digits are no code. -/
theorem decoding_is_positional_at_three :
    (decode 21003 = .ok ⟨.input, 210⟩ ∧ (21003 : Word).toInt % 100 = 3 ∧
      ((1 : Nat) ≤ 3 ∧ ((⟨.input, 210⟩ : Instruction).digit 3 : Int) = 2) ∧
      ((17 : Nat) < 18 ∧ (⟨.input, 210⟩ : Instruction).digit 18 = 0) ∧
      (⟨.input, 210⟩ : Instruction).word? = some 21003) ∧
    ((-5 : Word).toInt < 0 ∧ decode (-5) = .error (.unknownOpcode (-5))) ∧
    (0 ≤ (298 : Word).toInt ∧ (∀ o : Opcode, (298 : Word).toInt % 100 ≠ o.code) ∧
      ∃ low : Word, low.toInt = 98 ∧ decode 298 = .error (.unknownOpcode low)) := by
  have decoded : decode 21003 = .ok ⟨.input, 210⟩ := by rfl
  have negative : (-5 : Word).toInt < 0 := by decide
  have nonneg : 0 ≤ (298 : Word).toInt := by decide
  have none : ∀ o : Opcode, (298 : Word).toInt % 100 ≠ o.code := by
    intro o
    cases o <;> decide
  obtain ⟨-, -, -, read⟩ := decoding_is_positional 21003
  obtain ⟨code, digit, high, -, back, -⟩ := read _ decoded
  refine ⟨⟨decoded, code, ⟨by decide, ?_⟩, ⟨by decide, high 18 (by decide)⟩, back⟩,
    ⟨negative, (decoding_is_positional (-5)).2.1 negative⟩, nonneg, none, ?_⟩
  · exact (digit 3 (by decide)).trans (by decide)
  · exact (decoding_is_positional 298).2.2.1 nonneg none

end Instruction

end Intcode
