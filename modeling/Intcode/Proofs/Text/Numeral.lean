import Intcode.Text.Numeral

/-!
# What numerals denote

A text is read as a word exactly if it is a numeral of it: digits, at least one, in front of which
there may be one sign. The limit that stops the reading at a digit is no further condition, since
more digits never make a number smaller. Whatever zeros and plus signs a word is written with, it is
read back.
-/

namespace Intcode.Numeral

theorem digit?_of_isDigit {c : Char} (h : c.isDigit = true) :
    digit? c = some (c.toNat - '0'.toNat) :=
  if_pos (Char.isDigit_iff_toNat.mp h)

theorem digit?_of_not_isDigit {c : Char} (h : ¬c.isDigit = true) : digit? c = none :=
  if_neg fun range => h (Char.isDigit_iff_toNat.mpr range)

/-- More digits never make a number smaller. -/
theorem le_ofDigitChars (ds : List Char) (value : Nat) : value ≤ Nat.ofDigitChars 10 ds value := by
  induction ds generalizing value with
  | nil => exact Nat.le_refl value
  | cons c ds ih =>
    rw [Nat.ofDigitChars_cons]
    have grown := ih (10 * value + (c.toNat - '0'.toNat))
    omega

/-- Digits are read as the number that they make if it is within the limit. -/
theorem readDigits_eq_ok_iff {limit value n : Nat} {excess : Flaw} {ds : List Char}
    (within : value ≤ limit) :
    readDigits limit excess value ds = .ok n ↔
      (∀ c ∈ ds, c.isDigit = true) ∧ Nat.ofDigitChars 10 ds value = n ∧ n ≤ limit := by
  induction ds generalizing value with
  | nil =>
    simp only [readDigits, Nat.ofDigitChars_nil, List.not_mem_nil, false_implies, implies_true,
      true_and, Except.ok.injEq]
    constructor
    · rintro rfl
      exact ⟨rfl, within⟩
    · exact fun h => h.1
  | cons c ds ih =>
    simp only [readDigits]
    by_cases digit : c.isDigit = true
    · rw [digit?_of_isDigit digit, Nat.ofDigitChars_cons, Nat.mul_comm 10 value]
      simp only [List.forall_mem_cons, digit, true_and]
      by_cases excessive : limit < value * 10 + (c.toNat - '0'.toNat)
      · rw [if_pos excessive]
        refine iff_of_false nofun ?_
        rintro ⟨-, rfl, small⟩
        have grown := le_ofDigitChars ds (value * 10 + (c.toNat - '0'.toNat))
        omega
      · rw [if_neg excessive]
        exact ih (Nat.not_lt.mp excessive)
    · rw [digit?_of_not_isDigit digit]
      refine iff_of_false nofun fun h => ?_
      exact digit (h.1 c List.mem_cons_self)

theorem readMagnitude_eq_ok_iff {limit n : Nat} {excess : Flaw} {ds : List Char} :
    readMagnitude limit excess ds = .ok n ↔
      ds ≠ [] ∧ (∀ c ∈ ds, c.isDigit = true) ∧ Nat.ofDigitChars 10 ds 0 = n ∧ n ≤ limit := by
  cases ds with
  | nil => exact iff_of_false nofun fun h => h.1 rfl
  | cons c ds =>
    rw [and_iff_right (List.cons_ne_nil c ds)]
    exact readDigits_eq_ok_iff (Nat.zero_le limit)

/-- The integer that a numeral stands for: digits, with a sign in front of them or none. -/
inductive Denotes : List Char → Int → Prop
  | plain {ds : List Char} (some : ds ≠ []) (digits : ∀ c ∈ ds, c.isDigit = true) :
      Denotes ds (Nat.ofDigitChars 10 ds 0)
  | plus {ds : List Char} (some : ds ≠ []) (digits : ∀ c ∈ ds, c.isDigit = true) :
      Denotes ('+' :: ds) (Nat.ofDigitChars 10 ds 0)
  | minus {ds : List Char} (some : ds ≠ []) (digits : ∀ c ∈ ds, c.isDigit = true) :
      Denotes ('-' :: ds) (-Nat.ofDigitChars 10 ds 0)

theorem Denotes.mem {s : List Char} {n : Int} (denotes : Denotes s n) {c : Char} (mem : c ∈ s) :
    c.isDigit = true ∨ c = '+' ∨ c = '-' := by
  cases denotes with
  | plain _ digits => exact .inl (digits c mem)
  | plus _ digits =>
    rcases List.mem_cons.mp mem with sign | mem
    · exact .inr (.inl sign)
    · exact .inl (digits c mem)
  | minus _ digits =>
    rcases List.mem_cons.mp mem with sign | mem
    · exact .inr (.inr sign)
    · exact .inl (digits c mem)

theorem Denotes.ne_nil {s : List Char} {n : Int} (denotes : Denotes s n) : s ≠ [] := by
  cases denotes with
  | plain some _ => exact some
  | plus _ _ | minus _ _ => exact List.cons_ne_nil _ _

/-- A numeral of a number that a word can hold is read, and nothing else is. -/
theorem readSigned_eq_ok_iff {s : List Char} {n : Int} :
    readSigned s = .ok n ↔
      Denotes s n ∧ -0x8000000000000000 ≤ n ∧ n < 0x8000000000000000 := by
  have mapped {limit : Nat} {excess : Flaw} {ds : List Char} (f : Nat → Int) :
      (readMagnitude limit excess ds).map f = .ok n ↔
        ∃ k, readMagnitude limit excess ds = .ok k ∧ f k = n := by
    cases readMagnitude limit excess ds with
    | error e => simp [Except.map]
    | ok k => simp [Except.map]
  unfold readSigned
  split
  · refine iff_of_false nofun fun h => ?_
    exact h.1.ne_nil rfl
  · rename_i ds
    simp only [mapped, readMagnitude_eq_ok_iff]
    constructor
    · rintro ⟨k, ⟨some, digits, rfl, small⟩, rfl⟩
      exact ⟨.plus some digits, by simp only [Int.ofNat_eq_natCast]; omega⟩
    · rintro ⟨denotes, low, high⟩
      cases denotes with
      | plain _ digits => exact absurd (digits '+' List.mem_cons_self) (by decide)
      | plus some digits => exact ⟨_, ⟨some, digits, rfl, by omega⟩, rfl⟩
  · rename_i ds
    simp only [mapped, readMagnitude_eq_ok_iff]
    constructor
    · rintro ⟨k, ⟨some, digits, rfl, small⟩, rfl⟩
      exact ⟨.minus some digits, by simp only [Int.ofNat_eq_natCast]; omega⟩
    · rintro ⟨denotes, low, high⟩
      cases denotes with
      | plain _ digits => exact absurd (digits '-' List.mem_cons_self) (by decide)
      | minus some digits => exact ⟨_, ⟨some, digits, rfl, by omega⟩, rfl⟩
  · rename_i ds _ noPlus noMinus
    simp only [mapped, readMagnitude_eq_ok_iff]
    constructor
    · rintro ⟨k, ⟨some, digits, rfl, small⟩, rfl⟩
      exact ⟨.plain some digits, by simp only [Int.ofNat_eq_natCast]; omega⟩
    · rintro ⟨denotes, low, high⟩
      cases denotes with
      | plain some digits => exact ⟨_, ⟨some, digits, rfl, by omega⟩, rfl⟩
      | plus _ _ => exact absurd rfl (noPlus _)
      | minus _ _ => exact absurd rfl (noMinus _)

/-- Exactly the numerals of a word are read as that word. -/
theorem readWord_eq_ok_iff {s : List Char} {w : Word} :
    readWord s = .ok w ↔ Denotes s w.toInt := by
  rw [readWord]
  constructor
  · intro read
    cases signed : readSigned s with
    | error e =>
      rw [signed] at read
      cases read
    | ok n =>
      rw [signed] at read
      obtain rfl := Except.ok.inj read
      obtain ⟨denotes, low, high⟩ := readSigned_eq_ok_iff.mp signed
      rwa [Int64.toInt_ofInt_of_le low high]
  · intro denotes
    have signed : readSigned s = .ok w.toInt :=
      readSigned_eq_ok_iff.mpr ⟨denotes, Int64.le_toInt w, Int64.toInt_lt w⟩
    rw [signed]
    exact congrArg Except.ok (Int64.ofInt_toInt w)

/-- The ways to write a word: its decimal digits behind any number of zeros, behind a minus sign if
it is negative. A word that is not may have a plus sign. -/
inductive Spells (w : Word) : List Char → Prop
  | plain (zeros : Nat) (nonneg : 0 ≤ w.toInt) :
      Spells w (List.replicate zeros '0' ++ Nat.toDigits 10 w.toInt.natAbs)
  | plus (zeros : Nat) (nonneg : 0 ≤ w.toInt) :
      Spells w ('+' :: (List.replicate zeros '0' ++ Nat.toDigits 10 w.toInt.natAbs))
  | minus (zeros : Nat) (negative : w.toInt < 0) :
      Spells w ('-' :: (List.replicate zeros '0' ++ Nat.toDigits 10 w.toInt.natAbs))

section Zeros

variable (zeros n : Nat)

theorem zeros_ne_nil : List.replicate zeros '0' ++ Nat.toDigits 10 n ≠ [] :=
  List.append_ne_nil_of_right_ne_nil _ Nat.toDigits_ne_nil

theorem isDigit_of_mem_zeros :
    ∀ c ∈ List.replicate zeros '0' ++ Nat.toDigits 10 n, c.isDigit = true := by
  intro c mem
  rcases List.mem_append.mp mem with zero | digit
  · rw [List.eq_of_mem_replicate zero]
    decide
  · exact Nat.isDigit_of_mem_toDigits (by decide) (by decide) digit

theorem ofDigitChars_zeros :
    Nat.ofDigitChars 10 (List.replicate zeros '0' ++ Nat.toDigits 10 n) 0 = n := by
  rw [Nat.ofDigitChars_append, Nat.ofDigitChars_replicate_zero, Nat.mul_zero,
    Nat.ofDigitChars_ten_toDigits]

end Zeros

theorem Spells.denotes {w : Word} {s : List Char} (spells : Spells w s) : Denotes s w.toInt := by
  cases spells with
  | plain zeros nonneg =>
    have denotes := Denotes.plain (zeros_ne_nil zeros w.toInt.natAbs)
      (isDigit_of_mem_zeros zeros w.toInt.natAbs)
    rwa [ofDigitChars_zeros, Int.natAbs_of_nonneg nonneg] at denotes
  | plus zeros nonneg =>
    have denotes := Denotes.plus (zeros_ne_nil zeros w.toInt.natAbs)
      (isDigit_of_mem_zeros zeros w.toInt.natAbs)
    rwa [ofDigitChars_zeros, Int.natAbs_of_nonneg nonneg] at denotes
  | minus zeros negative =>
    have denotes := Denotes.minus (zeros_ne_nil zeros w.toInt.natAbs)
      (isDigit_of_mem_zeros zeros w.toInt.natAbs)
    rwa [ofDigitChars_zeros, Int.ofNat_natAbs_of_nonpos (Int.le_of_lt negative),
      Int.neg_neg] at denotes

/-- However a word is written, it is read back. -/
theorem Spells.readWord_eq {w : Word} {s : List Char} (spells : Spells w s) :
    readWord s = .ok w :=
  readWord_eq_ok_iff.mpr spells.denotes

/-- The text of a word is one of the ways to write it. -/
theorem spells_text (w : Word) : Spells w w.text.toList := by
  have repr : w.text.toList = w.toInt.repr.toList := rfl
  rw [repr]
  cases value : w.toInt with
  | ofNat n =>
    have nonneg : 0 ≤ w.toInt := by rw [value]; exact Int.natCast_nonneg n
    have spells := Spells.plain 0 nonneg
    rw [value] at spells
    exact Nat.toList_repr ▸ spells
  | negSucc n =>
    have negative : w.toInt < 0 := by rw [value]; exact Int.negSucc_lt_zero n
    have spells := Spells.minus 0 negative
    rw [value] at spells
    have digits : (Int.negSucc n).repr.toList = '-' :: Nat.toDigits 10 (n + 1) := by
      show ("-" ++ n.succ.repr).toList = _
      rw [String.toList_append, Nat.toList_repr]
      rfl
    rw [digits]
    exact spells

end Intcode.Numeral
