import Intcode.Proofs.Disassembly.Line
import Intcode.Proofs.Disassembly.Text

/-!
# Listings

The lines of an image tile it: the first starts at 0, each other where the one before it ends, and
the last ends with the image. So the text of an image tells its lines, and they tell all of it but
the digits of an instruction word that no parameter uses. Two images have one text exactly if they
differ in nothing else.
-/

namespace Intcode.Disassembly

/-- Lines that cover the addresses from a start to an end, each address once and in order. -/
inductive Tiles (stop : Nat) : Nat → List (Nat × Line) → Prop
  | done : Tiles stop stop []
  | line (start : Nat) (l : Line) {ls : List (Nat × Line)}
      (rest : Tiles stop (start + l.width) ls) : Tiles stop start ((start, l) :: ls)

variable {words words' : Array Word} {a start stop : Nat} {ls : List (Nat × Line)}

namespace Tiles

theorem stop_eq {stop' : Nat} (tiles : Tiles stop start ls) (tiles' : Tiles stop' start ls) :
    stop = stop' := by
  induction tiles with
  | done =>
    cases tiles'
    rfl
  | line start l rest ih =>
    cases tiles' with
    | line _ _ rest' => exact ih rest'

theorem le_of_mem (tiles : Tiles stop start ls) {l : Nat × Line} (mem : l ∈ ls) : start ≤ l.1 := by
  induction tiles with
  | done => cases mem
  | line start first rest ih =>
    rcases List.mem_cons.mp mem with rfl | later
    · exact Nat.le_refl start
    · exact Nat.le_trans (Nat.le_add_right start first.width) (ih later)

/-- Every address is covered. -/
theorem exists_mem (tiles : Tiles stop start ls) {j : Nat} (after : start ≤ j) (before : j < stop) :
    ∃ l ∈ ls, l.1 ≤ j ∧ j < l.1 + l.2.width := by
  induction tiles with
  | done => omega
  | line start first rest ih =>
    by_cases here : j < start + first.width
    · exact ⟨_, List.mem_cons_self, after, here⟩
    · obtain ⟨l, mem, covers⟩ := ih (Nat.not_lt.mp here)
      exact ⟨l, List.mem_cons_of_mem _ mem, covers⟩

end Tiles

theorem tiles_linesFrom (inside : a ≤ words.size) : Tiles words.size a (linesFrom words a) := by
  induction a using linesFrom.induct words with
  | case1 a more ih =>
    rw [linesFrom, if_pos more]
    exact .line a _ (ih (lineAt_width_le more))
  | case2 a past =>
    rw [linesFrom, if_neg past]
    obtain rfl : a = words.size := by omega
    exact .done

theorem tiles_lines (words : Array Word) : Tiles words.size 0 (lines words) :=
  tiles_linesFrom (Nat.zero_le _)

theorem eq_lineAt_of_mem {l : Nat × Line} (mem : l ∈ linesFrom words a) :
    l.2 = lineAt words l.1 := by
  induction a using linesFrom.induct words with
  | case1 a more ih =>
    rw [linesFrom, if_pos more] at mem
    rcases List.mem_cons.mp mem with rfl | later
    · rfl
    · exact ih later
  | case2 a past =>
    rw [linesFrom, if_neg past] at mem
    cases mem

/-- Two numerals without a sign that end in the same digits. -/
def EndAlike (digits : Nat) (w w' : Word) : Prop :=
  ∃ n n' : Nat, w.toInt = n ∧ w'.toInt = n' ∧ n % 10 ^ digits = n' % 10 ^ digits

variable {i i' : Instruction} {o : Opcode} {shown : List (Mode × Word)}

theorem endAlike_of_shown (there : Shown words a i shown) (there' : Shown words' a i' shown)
    (operation : i.opcode = i'.opcode) :
    EndAlike (shown.length + 2) (words.getD a 0) (words'.getD a 0) := by
  obtain ⟨n, value, code, modes⟩ := Instruction.exists_of_decode there.decoded
  obtain ⟨n', value', code', modes'⟩ := Instruction.exists_of_decode there'.decoded
  refine ⟨n, n', value, value', (Instruction.mod_eq_mod_iff n n' _).mpr ⟨?_, fun k h => ?_⟩⟩
  · rw [code, code', operation]
  · have digits := Mode.eq_of_ofDigit (there.operands.mode k h) (there'.operands.mode k h)
    simp only [Instruction.digit, modes, modes'] at digits
    exact Int.ofNat_inj.mp digits

/-- An instruction is shown alike in another image if its word ends in the same digits there and
its parameters are the same. -/
theorem Shown.lineAt_eq_of_endAlike (there : Shown words a i shown)
    (size : words.size = words'.size)
    (first : EndAlike (shown.length + 2) (words.getD a 0) (words'.getD a 0))
    (rest : ∀ k < shown.length, words.getD (a + k + 1) 0 = words'.getD (a + k + 1) 0) :
    lineAt words' a = lineAt words a := by
  obtain ⟨n, n', value, value', low⟩ := first
  obtain ⟨same, digits⟩ := (Instruction.mod_eq_mod_iff n n' _).mp low
  obtain ⟨m, number, code, modes⟩ := Instruction.exists_of_decode there.decoded
  obtain rfl : m = n := Int.ofNat_inj.mp (number.symm.trans value)
  have there' : Shown words' a ⟨i.opcode, n' / 100⟩ shown := by
    refine ⟨Instruction.decode_of_code value' (same ▸ code), size ▸ there.whole,
      there.operands.length, fun k h => ?_, fun k h => ?_⟩
    · rw [← there.operands.mode k h]
      simp only [Instruction.mode, Instruction.digit, modes, digits k h]
    · rw [there.operands.word k h, rest k h]
  rw [there.lineAt_eq, there'.lineAt_eq]

/-- Where an instruction is shown in one image, some instruction is shown in another that has the
same word there. -/
theorem Shown.exists_shown (there : Shown words a i shown) (size : words.size = words'.size)
    (word : words.getD a 0 = words'.getD a 0) : ∃ shown', Shown words' a i shown' := by
  obtain ⟨shown', -, operands⟩ := operands_of_valid words' a
    fun k h => ⟨_, there.operands.mode k (there.operands.length ▸ h)⟩
  exact ⟨shown', word ▸ there.decoded, size ▸ there.whole, operands⟩

/-- What two images have in common if the line at an address is the same: all its words, except that
the word of an instruction may have other digits than the ones that it uses. -/
structure AlikeAt (words words' : Array Word) (a : Nat) : Prop where
  first : words.getD a 0 = words'.getD a 0 ∨ ∃ o shown, lineAt words a = .instruction o shown ∧
    EndAlike (shown.length + 2) (words.getD a 0) (words'.getD a 0)
  rest : ∀ j, a < j → j < a + (lineAt words a).width → words.getD j 0 = words'.getD j 0

theorem alikeAt_of_lineAt_eq (same : lineAt words a = lineAt words' a) :
    AlikeAt words words' a := by
  rcases lineAt_cases words a with data | ⟨i, shown, there⟩
  · constructor
    · have data' := eq_of_lineAt_eq_data (same.symm.trans data)
      exact .inl data'
    · intro j after before
      rw [data, Line.width] at before
      omega
  · obtain ⟨i', there', operation⟩ := shown_of_lineAt (same.symm.trans there.lineAt_eq)
    constructor
    · exact .inr ⟨_, _, there.lineAt_eq, endAlike_of_shown there there' operation.symm⟩
    · intro j after before
      rw [there.lineAt_eq, Line.width] at before
      have arity : shown.length = i.opcode.width - 1 := there.operands.length
      have inside : j - a - 1 < shown.length := by omega
      have address : a + (j - a - 1) + 1 = j := by omega
      rw [← address, ← there.operands.word _ inside, there'.operands.word _ inside]

theorem lineAt_eq_of_alikeAt (size : words.size = words'.size) (alike : AlikeAt words words' a) :
    lineAt words' a = lineAt words a := by
  rcases lineAt_cases words a with data | ⟨i, shown, there⟩
  · have word : words.getD a 0 = words'.getD a 0 := by
      rcases alike.first with same | ⟨o, shown, line, -⟩
      · exact same
      · rw [data] at line
        cases line
    rcases lineAt_cases words' a with data' | ⟨i, shown, there⟩
    · rw [data, data', word]
    · obtain ⟨shown', there'⟩ := there.exists_shown size.symm word.symm
      rw [there'.lineAt_eq] at data
      cases data
  · refine there.lineAt_eq_of_endAlike size ?_ fun k h => ?_
    · rcases alike.first with same | ⟨o, shown', line, low⟩
      · obtain ⟨n, value, -⟩ := Instruction.exists_of_decode there.decoded
        exact ⟨n, n, value, same ▸ value, rfl⟩
      · rw [there.lineAt_eq] at line
        obtain ⟨-, rfl⟩ := Line.instruction.inj line
        exact low
    · apply alike.rest
      · omega
      · have arity : shown.length = i.opcode.width - 1 := there.operands.length
        rw [there.lineAt_eq, Line.width]
        omega

/-- Images of one size that are equal at every address, except that the word of an instruction which
is shown may have other digits above those of its operation and of the modes that are shown. -/
structure Alike (words words' : Array Word) : Prop where
  size : words.size = words'.size
  word : ∀ j < words.size, words.getD j 0 = words'.getD j 0 ∨
    ∃ o shown, (j, .instruction o shown) ∈ lines words ∧
      EndAlike (shown.length + 2) (words.getD j 0) (words'.getD j 0)

theorem alike_of_lines_eq (same : lines words = lines words') : Alike words words' := by
  have tiles := tiles_lines words
  constructor
  · exact tiles.stop_eq (same ▸ tiles_lines words')
  · intro j inside
    obtain ⟨⟨start, l⟩, mem, after, before⟩ := tiles.exists_mem (Nat.zero_le j) inside
    have line := eq_lineAt_of_mem mem
    have line' := eq_lineAt_of_mem (same ▸ mem)
    obtain ⟨first, rest⟩ := alikeAt_of_lineAt_eq (line.symm.trans line')
    rcases Nat.lt_or_eq_of_le after with later | here
    · exact .inl (rest j later (line ▸ before))
    · obtain rfl : start = j := here
      rcases first with word | ⟨o, shown, instruction, low⟩
      · exact .inl word
      · have shows : l = .instruction o shown := line.trans instruction
        exact .inr ⟨o, shown, shows ▸ mem, low⟩

/-- Up to the end of the first line there is no other line. -/
theorem eq_first_of_mem (more : a < words.size) {l : Nat × Line} (mem : l ∈ linesFrom words a)
    (before : l.1 < a + (lineAt words a).width) : l = (a, lineAt words a) := by
  rw [linesFrom, if_pos more] at mem
  rcases List.mem_cons.mp mem with first | later
  · exact first
  · have := (tiles_linesFrom (lineAt_width_le more)).le_of_mem later
    omega

/-- The lines from an address on depend on nothing in which the words from there on may differ. -/
theorem linesFrom_eq (size : words.size = words'.size)
    (alike : ∀ j, a ≤ j → j < words.size → words.getD j 0 = words'.getD j 0 ∨
      ∃ o shown, (j, .instruction o shown) ∈ linesFrom words a ∧
        EndAlike (shown.length + 2) (words.getD j 0) (words'.getD j 0)) :
    linesFrom words' a = linesFrom words a := by
  induction a using linesFrom.induct words with
  | case1 a more ih =>
    have positive := (lineAt words a).width_pos
    have inside := lineAt_width_le more
    have here : AlikeAt words words' a := by
      constructor
      · rcases alike a (Nat.le_refl a) more with same | ⟨o, shown, mem, low⟩
        · exact .inl same
        · have first := eq_first_of_mem more mem (Nat.lt_add_of_pos_right positive)
          exact .inr ⟨o, shown, (Prod.ext_iff.mp first).2.symm, low⟩
      · intro j after before
        rcases alike j (Nat.le_of_lt after) (Nat.lt_of_lt_of_le before inside) with
          same | ⟨o, shown, mem, -⟩
        · exact same
        · have first := eq_first_of_mem more mem before
          exact absurd (Prod.ext_iff.mp first).1 (Nat.ne_of_gt after)
    have same := lineAt_eq_of_alikeAt size here
    have later := ih fun j after before => by
      rcases alike j (by omega) before with equal | ⟨o, shown, mem, low⟩
      · exact .inl equal
      · rw [linesFrom, if_pos more] at mem
        rcases List.mem_cons.mp mem with first | mem
        · have start : j = a := (Prod.ext_iff.mp first).1
          omega
        · exact .inr ⟨o, shown, mem, low⟩
    rw [linesFrom, if_pos (size ▸ more), same, later, eq_comm, linesFrom, if_pos more]
  | case2 a past =>
    have past' : ¬a < words'.size := size ▸ past
    rw [linesFrom, if_neg past', linesFrom, if_neg past]

theorem Alike.lines_eq (alike : Alike words words') : lines words = lines words' :=
  (linesFrom_eq alike.size fun j _ inside => alike.word j inside).symm

/-- The lines of an image tile it, and its text leaves open nothing but digits that no parameter of
an instruction uses. -/
theorem disassembly_loses_only_unused_digits :
    (∀ words : Array Word, Tiles words.size 0 (lines words)) ∧
      ∀ words words' : Array Word, Disassembly.text words = Disassembly.text words' ↔
        Alike words words' := by
  refine ⟨tiles_lines, fun words words' => ?_⟩
  constructor
  · intro same
    exact alike_of_lines_eq (lines_eq_of_text_eq same)
  · intro alike
    rw [Disassembly.text, Disassembly.text, alike.lines_eq]

/-- A halt uses no mode, an output uses one. -/
example : lines #[199, 104, 5, 304] = lines #[99, 1104, 5, 304] := by decide +kernel

end Intcode.Disassembly
