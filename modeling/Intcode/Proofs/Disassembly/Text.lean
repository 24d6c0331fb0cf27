import Intcode.Disassembly
import Intcode.Proofs.Text.Blank
import Std.Data.String.ToInt

/-!
# Texts of lines

No two lines are written alike, and no two images either unless their lines are the same. A text is
read from its left end: a blank ends the mnemonic, a comma an operand, a colon the address and the
end of the line the line, since none of these characters stands in what it ends.
-/

namespace Intcode

/-- A text is cut at the first occurrence of a character in one way only. -/
theorem eq_and_eq_of_append_cons {c : Char} {u v s t : List Char} (left : c ∉ u) (right : c ∉ v)
    (same : u ++ c :: s = v ++ c :: t) : u = v ∧ s = t := by
  induction u generalizing v with
  | nil =>
    cases v with
    | nil => exact ⟨rfl, (List.cons.inj same).2⟩
    | cons b v =>
      obtain ⟨rfl, -⟩ := List.cons.inj same
      exact absurd List.mem_cons_self right
  | cons a u ih =>
    cases v with
    | nil =>
      obtain ⟨rfl, -⟩ := List.cons.inj same
      exact absurd List.mem_cons_self left
    | cons b v =>
      simp only [List.mem_cons, not_or] at left right
      obtain ⟨rfl, rest⟩ := List.cons.inj same
      obtain ⟨rfl, tails⟩ := ih left.2 right.2 rest
      exact ⟨rfl, tails⟩

/-- A list of parts without commas is determined by the text that joins them. -/
theorem eq_of_intercalate_eq {us vs : List (List Char)} (left : ∀ u ∈ us, ',' ∉ u)
    (right : ∀ v ∈ vs, ',' ∉ v) (some : us ≠ []) (some' : vs ≠ [])
    (same : [',', ' '].intercalate us = [',', ' '].intercalate vs) : us = vs := by
  induction us generalizing vs with
  | nil => exact absurd rfl some
  | cons u us ih =>
    cases vs with
    | nil => exact absurd rfl some'
    | cons v vs =>
      have clear := left u List.mem_cons_self
      have clear' := right v List.mem_cons_self
      cases us with
      | nil =>
        cases vs with
        | nil => simpa using same
        | cons v' vs =>
          rw [List.intercalate_singleton, List.intercalate_cons_cons] at same
          rw [same] at clear
          simp at clear
      | cons u' us =>
        cases vs with
        | nil =>
          rw [List.intercalate_singleton, List.intercalate_cons_cons] at same
          rw [← same] at clear'
          simp at clear'
        | cons v' vs =>
          simp only [List.intercalate_cons_cons, List.append_assoc, List.cons_append,
            List.nil_append] at same
          obtain ⟨rfl, rest⟩ := eq_and_eq_of_append_cons clear clear' same
          obtain ⟨-, rest⟩ := List.cons.inj rest
          have later := ih (fun w mem => left w (List.mem_cons_of_mem _ mem))
            (fun w mem => right w (List.mem_cons_of_mem _ mem)) (List.cons_ne_nil _ _)
            (List.cons_ne_nil _ _) rest
          rw [later]

namespace Text

theorem toList_pushn (s : String) (n : Nat) :
    (s.pushn ' ' n).toList = s.toList ++ List.replicate n ' ' := by
  rw [String.pushn_eq_repeat_push]
  induction n with
  | zero => simp [Nat.repeat]
  | succ n ih => simp [Nat.repeat, ih, List.replicate_succ']

theorem toList_alignLeft (width : Nat) (s : String) :
    (alignLeft width s).toList = s.toList ++ List.replicate (width - s.length) ' ' := by
  simp [alignLeft, toList_pushn]

theorem toList_alignRight (width : Nat) (s : String) :
    (alignRight width s).toList = List.replicate (width - s.length) ' ' ++ s.toList := by
  simp [alignRight, toList_pushn]

end Text

theorem isDigit_of_mem_repr {n : Nat} {c : Char} (mem : c ∈ n.repr.toList) : c.isDigit = true := by
  rw [Nat.toList_repr] at mem
  exact Nat.isDigit_of_mem_toDigits (by decide) (by decide) mem

/-- A numeral consists of digits, and there may be a sign. -/
theorem mem_numeral {n : Int} {c : Char} (mem : c ∈ n.repr.toList) :
    c.isDigit = true ∨ c = '-' := by
  cases n with
  | ofNat m => exact .inl (isDigit_of_mem_repr mem)
  | negSucc m =>
    have split : ("-" ++ m.succ.repr).toList = '-' :: m.succ.repr.toList := by
      simp
    have mem' : c ∈ ("-" ++ m.succ.repr).toList := mem
    rw [split, List.mem_cons] at mem'
    rcases mem' with rfl | mem'
    · exact .inr rfl
    · exact .inl (isDigit_of_mem_repr mem')

theorem Word.eq_of_text_eq {w w' : Word} (same : w.text = w'.text) : w = w' :=
  Int64.toInt_inj.mp (Int.repr_injective same)

theorem Opcode.eq_of_mnemonic_eq {o o' : Opcode} (same : o.mnemonic = o'.mnemonic) : o = o' := by
  revert same
  cases o <;> cases o' <;> decide

theorem Opcode.mem_mnemonic {o : Opcode} {c : Char} (mem : c ∈ o.mnemonic.toList) :
    c ≠ ' ' ∧ c ≠ '\n' := by
  have letters : (o.mnemonic.toList.all fun c => c ≠ ' ' ∧ c ≠ '\n') = true := by
    cases o <;> decide
  exact of_decide_eq_true (List.all_eq_true.mp letters c mem)

namespace Disassembly

theorem toList_operandText (mode : Mode) (raw : Word) : (operandText mode raw).toList =
    match mode with
    | .position => '[' :: (raw.text.toList ++ [']'])
    | .immediate => '#' :: raw.text.toList
    | .relative =>
      'r' :: 'b' :: (if raw.toInt < 0 then '-' else '+') :: raw.toInt.natAbs.repr.toList := by
  cases mode with
  | position => simp [operandText, toString]
  | immediate => simp [operandText, toString]
  | relative =>
    by_cases negative : raw.toInt < 0
    · simp [operandText, toString, negative]
    · simp [operandText, toString, negative]

theorem mem_operandText {mode : Mode} {raw : Word} {c : Char}
    (mem : c ∈ (operandText mode raw).toList) : c ≠ ',' ∧ c ≠ '\n' := by
  have numeral {n : Int} (mem : c ∈ n.repr.toList) : c ≠ ',' ∧ c ≠ '\n' := by
    rcases mem_numeral mem with digit | rfl
    · constructor
      · rintro rfl
        cases digit
      · rintro rfl
        cases digit
    · decide
  rw [toList_operandText] at mem
  cases mode with
  | position =>
    simp only [List.mem_cons, List.mem_append, List.not_mem_nil, or_false] at mem
    rcases mem with rfl | mem | rfl
    · decide
    · exact numeral mem
    · decide
  | immediate =>
    rcases List.mem_cons.mp mem with rfl | mem
    · decide
    · exact numeral mem
  | relative =>
    simp only [List.mem_cons] at mem
    rcases mem with rfl | rfl | rfl | mem
    · decide
    · decide
    · split <;> decide
    · exact numeral (n := raw.toInt.natAbs) mem

/-- The first character of an operand tells its mode, and what follows tells its word. -/
theorem eq_of_operandText_eq {mode mode' : Mode} {raw raw' : Word}
    (same : operandText mode raw = operandText mode' raw') : mode = mode' ∧ raw = raw' := by
  have chars := congrArg String.toList same
  rw [toList_operandText, toList_operandText] at chars
  cases mode with
  | position =>
    cases mode' with
    | position =>
      have inner := List.append_cancel_right (List.cons.inj chars).2
      exact ⟨rfl, Word.eq_of_text_eq (String.toList_inj.mp inner)⟩
    | immediate | relative => exact absurd (List.cons.inj chars).1 (by decide)
  | immediate =>
    cases mode' with
    | immediate => exact ⟨rfl, Word.eq_of_text_eq (String.toList_inj.mp (List.cons.inj chars).2)⟩
    | position | relative => exact absurd (List.cons.inj chars).1 (by decide)
  | relative =>
    cases mode' with
    | position | immediate => exact absurd (List.cons.inj chars).1 (by decide)
    | relative =>
      obtain ⟨sign, digits⟩ := List.cons.inj (List.cons.inj (List.cons.inj chars).2).2
      have size := Nat.repr_injective (String.toList_inj.mp digits)
      have signed : raw.toInt < 0 ↔ raw'.toInt < 0 := by
        by_cases left : raw.toInt < 0
        · by_cases right : raw'.toInt < 0
          · exact iff_of_true left right
          · rw [if_pos left, if_neg right] at sign
            exact absurd sign (by decide)
        · by_cases right : raw'.toInt < 0
          · rw [if_neg left, if_pos right] at sign
            exact absurd sign (by decide)
          · exact iff_of_false left right
      exact ⟨rfl, Int64.toInt_inj.mp (by omega)⟩

theorem eq_of_operands_eq {shown shown' : List (Mode × Word)}
    (same : (shown.map fun p => (operandText p.1 p.2).toList) =
      shown'.map fun p => (operandText p.1 p.2).toList) : shown = shown' := by
  refine (List.map_inj_right fun p q equal => ?_).mp same
  obtain ⟨mode, raw⟩ := eq_of_operandText_eq (String.toList_inj.mp equal)
  exact Prod.ext mode raw

namespace Line

def name : Line → String
  | instruction o _ => o.mnemonic
  | data _ => "DATA"

/-- What follows the first blank of a line, if one is put at its end. -/
def rest : Line → List Char
  | instruction _ [] => []
  | instruction o shown =>
    List.replicate (4 - o.mnemonic.length) ' ' ++
      ([',', ' '].intercalate (shown.map fun p => (operandText p.1 p.2).toList) ++ [' '])
  | data w => w.text.toList ++ [' ']

theorem toList_text (l : Line) : l.text.toList ++ [' '] = l.name.toList ++ ' ' :: l.rest := by
  cases l with
  | data w =>
    have blank : "DATA ".toList = "DATA".toList ++ [' '] := rfl
    rw [text, String.toList_append, blank, List.append_assoc, List.append_assoc]
    rfl
  | instruction o shown =>
    cases shown with
    | nil => rfl
    | cons first later =>
      simp only [text, name, rest, String.toList_append, Text.toList_alignLeft,
        String.toList_intercalate, List.map_map, List.append_assoc]
      rw [← List.cons_append, ← List.replicate_succ, List.replicate_succ', List.append_assoc]
      rfl

theorem mem_name {l : Line} {c : Char} (mem : c ∈ l.name.toList) : c ≠ ' ' ∧ c ≠ '\n' := by
  cases l with
  | data w =>
    have letters : ("DATA".toList.all fun c => c ≠ ' ' ∧ c ≠ '\n') = true := by decide
    exact of_decide_eq_true (List.all_eq_true.mp letters c mem)
  | instruction o shown => exact Opcode.mem_mnemonic mem

theorem not_mem_rest (l : Line) : '\n' ∉ l.rest := by
  intro mem
  cases l with
  | data w =>
    rcases List.mem_append.mp mem with numeral | blank
    · rcases mem_numeral numeral with digit | sign
      · exact absurd digit (by decide)
      · exact absurd sign (by decide)
    · exact absurd blank (by decide)
  | instruction o shown =>
    cases shown with
    | nil => cases mem
    | cons first later =>
      rcases List.mem_append.mp mem with pad | mem
      · exact absurd (List.eq_of_mem_replicate pad) (by decide)
      · rcases List.mem_append.mp mem with joined | blank
        · rcases Text.mem_of_mem_intercalate joined with separator | ⟨u, operand, inside⟩
          · exact absurd separator (by decide)
          · obtain ⟨p, -, rfl⟩ := List.mem_map.mp operand
            exact (mem_operandText inside).2 rfl
        · exact absurd blank (by decide)

/-- A line has no second line in it. -/
theorem not_mem_text (l : Line) : '\n' ∉ l.text.toList := by
  intro mem
  have inside : '\n' ∈ l.name.toList ++ ' ' :: l.rest := by
    rw [← toList_text]
    exact List.mem_append_left _ mem
  rcases List.mem_append.mp inside with name | rest
  · exact (mem_name name).2 rfl
  · rcases List.mem_cons.mp rest with blank | rest
    · exact absurd blank (by decide)
    · exact l.not_mem_rest rest

theorem mnemonic_ne_data (o : Opcode) : o.mnemonic.toList ≠ "DATA".toList := by
  cases o <;> decide

/-- No instruction is written like a word of data. -/
theorem text_instruction_ne (o : Opcode) (shown : List (Mode × Word)) (s : String) :
    (instruction o shown).text ≠ "DATA " ++ s := by
  intro same
  have chars := toList_text (instruction o shown)
  rw [same, String.toList_append, List.append_assoc] at chars
  have cut := eq_and_eq_of_append_cons (u := "DATA".toList) (s := s.toList ++ [' ']) (by decide)
    (fun mem => (mem_name mem).1 rfl) chars
  exact mnemonic_ne_data o cut.1.symm

theorem eq_of_rest_eq {o : Opcode} {shown shown' : List (Mode × Word)}
    (same : (instruction o shown).rest = (instruction o shown').rest) : shown = shown' := by
  cases shown with
  | nil =>
    cases shown' with
    | nil => rfl
    | cons first' later' => simp [rest] at same
  | cons first later =>
    cases shown' with
    | nil => simp [rest] at same
    | cons first' later' =>
      have joined := List.append_cancel_right (List.append_cancel_left same)
      have clear (shown : List (Mode × Word)) :
          ∀ u ∈ shown.map fun p => (operandText p.1 p.2).toList, ',' ∉ u := by
        intro u mem comma
        obtain ⟨p, -, rfl⟩ := List.mem_map.mp mem
        exact (mem_operandText comma).1 rfl
      exact eq_of_operands_eq (eq_of_intercalate_eq (clear _) (clear _) (by simp) (by simp) joined)

/-- Different lines are written differently. -/
theorem eq_of_text_eq {l l' : Line} (same : l.text = l'.text) : l = l' := by
  have chars := toList_text l
  rw [same, toList_text] at chars
  obtain ⟨begun, ended⟩ := eq_and_eq_of_append_cons (fun mem => (mem_name mem).1 rfl)
    (fun mem => (mem_name mem).1 rfl) chars
  cases l with
  | data w =>
    cases l' with
    | data w' =>
      have numerals := String.toList_inj.mp (List.append_cancel_right ended)
      rw [Word.eq_of_text_eq numerals]
    | instruction o' shown' => exact absurd begun (mnemonic_ne_data o')
  | instruction o shown =>
    cases l' with
    | data w' => exact absurd begun.symm (mnemonic_ne_data o)
    | instruction o' shown' =>
      obtain rfl := Opcode.eq_of_mnemonic_eq (String.toList_inj.mp begun)
      rw [eq_of_rest_eq ended]

end Line

theorem toList_numbered (a : Nat) (l : Line) : (numbered a l).toList =
    (Text.alignRight 5 a.repr).toList ++ ':' :: ' ' :: l.text.toList := by
  simp [numbered, toString]

/-- An address field holds the digits of the address and blanks. -/
theorem mem_field {a : Nat} {c : Char} (mem : c ∈ (Text.alignRight 5 a.repr).toList) :
    c = ' ' ∨ c.isDigit = true := by
  rw [Text.toList_alignRight, List.mem_append] at mem
  rcases mem with pad | digits
  · exact .inl (List.eq_of_mem_replicate pad)
  · exact .inr (isDigit_of_mem_repr digits)

theorem eq_of_field_eq {a b : Nat}
    (same : (Text.alignRight 5 a.repr).toList = (Text.alignRight 5 b.repr).toList) : a = b := by
  have digits (n : Nat) :
      (Text.alignRight 5 n.repr).toList.filter Char.isDigit = n.repr.toList := by
    rw [Text.toList_alignRight, List.filter_append, List.filter_replicate_of_neg (by decide),
      List.nil_append, List.filter_eq_self]
    exact fun c mem => isDigit_of_mem_repr mem
  have chars := digits a
  rw [same, digits] at chars
  exact (Nat.repr_injective (String.toList_inj.mp chars)).symm

theorem eq_of_numbered_eq {a b : Nat} {l l' : Line} (same : numbered a l = numbered b l') :
    a = b ∧ l = l' := by
  have chars := congrArg String.toList same
  rw [toList_numbered, toList_numbered] at chars
  have clear (n : Nat) : ':' ∉ (Text.alignRight 5 n.repr).toList := by
    intro mem
    rcases mem_field mem with blank | digit
    · exact absurd blank (by decide)
    · exact absurd digit (by decide)
  obtain ⟨field, shown⟩ := eq_and_eq_of_append_cons (clear a) (clear b) chars
  exact ⟨eq_of_field_eq field, Line.eq_of_text_eq (String.toList_inj.mp (List.cons.inj shown).2)⟩

theorem not_mem_numbered (a : Nat) (l : Line) : '\n' ∉ (numbered a l).toList := by
  intro mem
  rw [toList_numbered, List.mem_append, List.mem_cons, List.mem_cons] at mem
  rcases mem with field | colon | blank | shown
  · rcases mem_field field with blank | digit
    · exact absurd blank (by decide)
    · exact absurd digit (by decide)
  · exact absurd colon (by decide)
  · exact absurd blank (by decide)
  · exact l.not_mem_text shown

/-- A text of numbered lines, every line ended, has no other lines. -/
theorem eq_of_join_eq {ls ls' : List (Nat × Line)}
    (same : String.join (ls.map fun l => numbered l.1 l.2 ++ "\n") =
      String.join (ls'.map fun l => numbered l.1 l.2 ++ "\n")) : ls = ls' := by
  have chars := congrArg String.toList same
  simp only [String.toList_join, List.flatMap_map, String.toList_append] at chars
  clear same
  induction ls generalizing ls' with
  | nil =>
    cases ls' with
    | nil => rfl
    | cons l' ls' => simp at chars
  | cons l ls ih =>
    cases ls' with
    | nil => simp at chars
    | cons l' ls' =>
      simp only [List.flatMap_cons, List.append_assoc] at chars
      obtain ⟨first, later⟩ := eq_and_eq_of_append_cons (not_mem_numbered l.1 l.2)
        (not_mem_numbered l'.1 l'.2) chars
      obtain ⟨address, line⟩ := eq_of_numbered_eq (String.toList_inj.mp first)
      rw [ih later, Prod.ext address line]

/-- Images with one text have the same lines. -/
theorem lines_eq_of_text_eq {words words' : Array Word}
    (same : Disassembly.text words = Disassembly.text words') : lines words = lines words' :=
  eq_of_join_eq same

end Disassembly

end Intcode
