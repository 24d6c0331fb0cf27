import Intcode.Proofs.Machine.Storage
import Mathlib.Data.List.Induction

/-!
# Memory as a total map

Whatever has been written and in whatever order, a memory reads as a map from all addresses that are
not negative: the last value written at an address, or else the cell it started with, or else 0. The
dense prefix and the sparse cells leave no trace in what is read.
-/

namespace Intcode.Memory

/-- The memory after an attempt to write. A write that fails leaves it as it was. -/
def attempt (m : Memory) (address value : Word) : Memory :=
  match m.write address value with
  | .ok m => m
  | .error _ => m

def afterWrites (m : Memory) (ws : List (Word × Word)) : Memory :=
  ws.foldl (fun m w => m.attempt w.1 w.2) m

def lastWritten (ws : List (Word × Word)) (address : Word) : Option Word :=
  ws.reverse.lookup address

theorem afterWrites_concat (m : Memory) (ws : List (Word × Word)) (address value : Word) :
    m.afterWrites (ws ++ [(address, value)]) = (m.afterWrites ws).attempt address value := by
  simp only [afterWrites, List.foldl_append, List.foldl_cons, List.foldl_nil]

theorem lastWritten_concat (ws : List (Word × Word)) (a b value : Word) :
    lastWritten (ws ++ [(a, value)]) b = if b = a then some value else lastWritten ws b := by
  simp only [lastWritten, List.reverse_append, List.reverse_singleton, List.singleton_append,
    List.lookup_cons]
  by_cases same : b = a
  · simp [same]
  · simp [same, beq_eq_false_iff_ne.mpr same]

section Negative

variable {a : Word} (negative : a.toInt < 0)
include negative

theorem read_of_negative (m : Memory) : m.read a = .error (.negativeAddress a) := by
  rw [read, Word.toNat?_eq_none_iff.mpr negative]

theorem write_of_negative (m : Memory) (value : Word) :
    m.write a value = .error (.negativeAddress a) := by
  rw [write, Word.toNat?_eq_none_iff.mpr negative]

theorem attempt_of_negative (m : Memory) (value : Word) : m.attempt a value = m := by
  rw [attempt, write_of_negative negative]

end Negative

section Nonnegative

variable {a : Word} (nonneg : 0 ≤ a.toInt)
include nonneg

theorem write_of_nonneg (m : Memory) (value : Word) :
    m.write a value = .ok (m.set a.toInt.toNat value) := by
  have number : a.toNat? = some a.toInt.toNat :=
    Word.toNat?_eq_some_iff.mpr (Int.toNat_of_nonneg nonneg).symm
  rw [write, number]

theorem read_attempt_of_nonneg (m : Memory) (value b : Word) :
    (m.attempt a value).read b = if b = a then .ok value else m.read b := by
  have same : b.toInt = a.toInt.toNat ↔ b = a := by
    rw [Int.toNat_of_nonneg nonneg, Int64.toInt_inj]
  rw [attempt, write_of_nonneg nonneg]
  simp only [read_set, same]

theorem read_ofArray (cells : Array Word) :
    (ofArray cells).read a = .ok (cells[a.toInt.toNat]?.getD 0) := by
  have number : a.toNat? = some a.toInt.toNat :=
    Word.toNat?_eq_some_iff.mpr (Int.toNat_of_nonneg nonneg).symm
  rw [read, number]
  simp only [get, ofArray, Std.ExtTreeMap.getD_empty]
  cases cells[a.toInt.toNat]? <;> rfl

end Nonnegative

/-- One attempt to write changes what is read at its own address, if that is not negative, and
nowhere else. -/
theorem read_attempt (m : Memory) (a value : Word) {b : Word} (nonneg : 0 ≤ b.toInt) :
    (m.attempt a value).read b = if b = a then .ok value else m.read b := by
  by_cases negative : a.toInt < 0
  · have other : b ≠ a := by
      rintro rfl
      omega
    rw [attempt_of_negative negative, if_neg other]
  · exact read_attempt_of_nonneg (Int.not_lt.mp negative) m value b

theorem read_afterWrites (cells : Array Word) (ws : List (Word × Word)) {a : Word}
    (nonneg : 0 ≤ a.toInt) :
    ((ofArray cells).afterWrites ws).read a =
      .ok ((lastWritten ws a).getD (cells[a.toInt.toNat]?.getD 0)) := by
  induction ws using List.reverseRecOn with
  | nil => exact read_ofArray nonneg cells
  | append_singleton ws w ih =>
    obtain ⟨b, value⟩ := w
    rw [afterWrites_concat, read_attempt _ b value nonneg, lastWritten_concat, ih]
    by_cases same : a = b
    · rw [if_pos same, if_pos same, Option.getD_some]
    · rw [if_neg same, if_neg same]

/-- A memory is a total map. After any writes a write at a negative address fails and leaves the
memory as it was, and so does a read there; any other write succeeds, and a read returns the last
value written at its address, or else the cell that was there from the start, or else 0. -/
theorem reads_last_write (cells : Array Word) (ws : List (Word × Word)) (a value : Word) :
    let m := (ofArray cells).afterWrites ws
    (a.toInt < 0 →
      m.write a value = .error (.negativeAddress a) ∧
      (ofArray cells).afterWrites (ws ++ [(a, value)]) = m ∧
      m.read a = .error (.negativeAddress a)) ∧
    (0 ≤ a.toInt →
      (∃ m', m.write a value = .ok m' ∧
        (ofArray cells).afterWrites (ws ++ [(a, value)]) = m') ∧
      m.read a = .ok ((lastWritten ws a).getD (cells[a.toInt.toNat]?.getD 0))) := by
  intro m
  constructor
  · intro negative
    refine ⟨write_of_negative negative m value, ?_, read_of_negative negative m⟩
    rw [afterWrites_concat, attempt_of_negative negative]
  · intro nonneg
    refine ⟨⟨_, write_of_nonneg nonneg m value, ?_⟩, read_afterWrites cells ws nonneg⟩
    rw [afterWrites_concat, attempt, write_of_nonneg nonneg]

/-- Writes on both sides of the limit. The last one reaches a sparse cell that the prefix then
covers; one in between fails. -/
def crossing : List (Word × Word) :=
  [(1048578, 5), (1048577, 4), (-3, 1), (1048576, 3), (1048577, 6)]

/-- What is read after them, in the prefix and beyond it. -/
theorem crossing_reads_last :
    let m := (ofArray #[7]).afterWrites crossing
    ((-3 : Word).toInt < 0 ∧ m.write (-3) 9 = .error (.negativeAddress (-3)) ∧
      (ofArray #[7]).afterWrites (crossing ++ [(-3, 9)]) = m) ∧
    (0 ≤ (0 : Word).toInt ∧ m.read 0 = .ok 7) ∧
    (0 ≤ (1048575 : Word).toInt ∧ m.read 1048575 = .ok 0) ∧
    (0 ≤ (1048577 : Word).toInt ∧ m.read 1048577 = .ok 6) ∧
    (0 ≤ (1048578 : Word).toInt ∧ m.read 1048578 = .ok 5) := by
  intro m
  have low : (-3 : Word).toInt < 0 := by decide
  have start : 0 ≤ (0 : Word).toInt := by decide
  have last : 0 ≤ (1048575 : Word).toInt := by decide
  have reached : 0 ≤ (1048577 : Word).toInt := by decide
  have beyond : 0 ≤ (1048578 : Word).toInt := by decide
  obtain ⟨fails, unchanged, -⟩ := (reads_last_write #[7] crossing (-3) 9).1 low
  exact ⟨⟨low, fails, unchanged⟩, ⟨start, ((reads_last_write #[7] crossing 0 9).2 start).2⟩,
    ⟨last, ((reads_last_write #[7] crossing 1048575 9).2 last).2⟩,
    ⟨reached, ((reads_last_write #[7] crossing 1048577 9).2 reached).2⟩,
    ⟨beyond, ((reads_last_write #[7] crossing 1048578 9).2 beyond).2⟩⟩

end Intcode.Memory
