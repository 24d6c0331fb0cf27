import Intcode.Disassembly
import Intcode.Proofs.Instruction

/-!
# Lines of an image

Which line starts at an address is told here by the words of the image alone, whatever the walk that
shows them: an instruction with its operands if the word decodes, all parameters lie inside and all
their modes are valid, and the word itself if not.
-/

namespace Intcode.Disassembly

variable {words words' : Array Word} {a : Nat} {i i' : Instruction} {count : Nat}
  {shown : List (Mode × Word)} {o : Opcode}

structure Operands (words : Array Word) (a : Nat) (i : Instruction) (count : Nat)
    (shown : List (Mode × Word)) : Prop where
  length : shown.length = count
  mode : ∀ k (h : k < shown.length), i.mode (k + 1) = .ok shown[k].1
  word : ∀ k (h : k < shown.length), shown[k].2 = words.getD (a + k + 1) 0

theorem Operands.push (before : Operands words a i count shown) {mode : Mode}
    (valid : i.mode (count + 1) = .ok mode) :
    Operands words a i (count + 1) (shown ++ [(mode, words.getD (a + count + 1) 0)]) := by
  obtain ⟨rfl, modes, raws⟩ := before
  refine ⟨by simp, fun k h => ?_, fun k h => ?_⟩
  · rw [List.getElem_append]
    split
    · exact modes k _
    · obtain rfl : k = shown.length := by
        simp only [List.length_append, List.length_singleton] at h
        omega
      simpa using valid
  · rw [List.getElem_append]
    split
    · exact raws k _
    · obtain rfl : k = shown.length := by
        simp only [List.length_append, List.length_singleton] at h
        omega
      simp

/-- The operands are determined by the image. -/
theorem Operands.unique {shown' : List (Mode × Word)} (left : Operands words a i count shown)
    (right : Operands words a i count shown') : shown = shown' := by
  refine List.ext_getElem (left.length.trans right.length.symm) fun k h h' => ?_
  have mode := (left.mode k h).symm.trans (right.mode k h')
  have word := (left.word k h).trans (right.word k h').symm
  exact Prod.ext (Except.ok.inj mode) word

theorem operands_of_valid (words : Array Word) (a : Nat)
    (valid : ∀ k < count, ∃ mode, i.mode (k + 1) = .ok mode) :
    ∃ shown, operands words a i count = .ok shown ∧ Operands words a i count shown := by
  induction count with
  | zero =>
    refine ⟨[], rfl, rfl, ?_, ?_⟩
    · intro k h
      cases h
    · intro k h
      cases h
  | succ count ih =>
    obtain ⟨before, computed, exact⟩ := ih fun k h => valid k (Nat.lt_succ_of_lt h)
    obtain ⟨mode, last⟩ := valid count (Nat.lt_succ_self count)
    refine ⟨_, ?_, exact.push last⟩
    rw [operands, computed, last]
    rfl

theorem valid_of_operands (computed : operands words a i count = .ok shown) :
    ∀ k < count, ∃ mode, i.mode (k + 1) = .ok mode := by
  induction count generalizing shown with
  | zero =>
    intro k h
    cases h
  | succ count ih =>
    cases before : operands words a i count with
    | error e =>
      rw [operands, before] at computed
      cases computed
    | ok first =>
      cases last : i.mode (count + 1) with
      | error e =>
        rw [operands, before, last] at computed
        cases computed
      | ok mode =>
        intro k h
        rcases Nat.lt_succ_iff_lt_or_eq.mp h with earlier | rfl
        · exact ih before k earlier
        · exact ⟨mode, last⟩

theorem operands_eq_ok_iff :
    operands words a i count = .ok shown ↔ Operands words a i count shown := by
  constructor
  · intro computed
    obtain ⟨shown', computed', exact⟩ := operands_of_valid words a
      (valid_of_operands computed)
    obtain rfl := Except.ok.inj (computed.symm.trans computed')
    exact exact
  · intro exact
    obtain ⟨shown', computed, exact'⟩ := operands_of_valid words a
      fun k h => ⟨_, exact.mode k (exact.length ▸ h)⟩
    rw [computed, exact.unique exact']

structure Shown (words : Array Word) (a : Nat) (i : Instruction) (shown : List (Mode × Word)) :
    Prop where
  decoded : Instruction.decode (words.getD a 0) = .ok i
  whole : a + i.opcode.width ≤ words.size
  operands : Operands words a i i.opcode.arity shown

theorem Shown.lineAt_eq (there : Shown words a i shown) :
    lineAt words a = .instruction i.opcode shown := by
  simp only [lineAt, there.decoded, if_pos there.whole, operands_eq_ok_iff.mpr there.operands]

theorem lineAt_cases (words : Array Word) (a : Nat) :
    lineAt words a = .data (words.getD a 0) ∨ ∃ i shown, Shown words a i shown := by
  cases decoded : Instruction.decode (words.getD a 0) with
  | error e =>
    left
    simp only [lineAt, decoded]
  | ok i =>
    by_cases whole : a + i.opcode.width ≤ words.size
    · cases computed : operands words a i i.opcode.arity with
      | error e =>
        left
        simp only [lineAt, decoded, if_pos whole, computed]
      | ok shown => exact .inr ⟨i, shown, decoded, whole, operands_eq_ok_iff.mp computed⟩
    · left
      simp only [lineAt, decoded, if_neg whole]

theorem shown_of_lineAt (line : lineAt words a = .instruction o shown) :
    ∃ i, Shown words a i shown ∧ i.opcode = o := by
  rcases lineAt_cases words a with data | ⟨i, shown', there⟩
  · rw [data] at line
    cases line
  · rw [there.lineAt_eq] at line
    obtain ⟨rfl, rfl⟩ := Line.instruction.inj line
    exact ⟨i, there, rfl⟩

/-- A line of data shows the word at its address. -/
theorem eq_of_lineAt_eq_data {w : Word} (line : lineAt words a = .data w) :
    w = words.getD a 0 := by
  rcases lineAt_cases words a with data | ⟨i, shown', there⟩
  · exact Line.data.inj (line.symm.trans data)
  · rw [there.lineAt_eq] at line
    cases line

theorem lineAt_width_le (inside : a < words.size) : a + (lineAt words a).width ≤ words.size := by
  cases line : lineAt words a with
  | data w => exact inside
  | instruction o shown =>
    obtain ⟨i, there, rfl⟩ := shown_of_lineAt line
    exact there.whole

end Intcode.Disassembly
