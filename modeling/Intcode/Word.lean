/-!
# Words

A word is a signed 64-bit integer: a memory cell, an instruction or a value on a channel. Sums and
products are taken over the integers and are words again only if they are in range; nothing wraps.
-/

namespace Intcode

/-- A memory cell, instruction word or channel value. -/
abbrev Word := Int64

namespace Word

/-- The word of a given value, if the value is in range. -/
def ofInt? (n : Int) : Option Word :=
  if -0x8000000000000000 ≤ n ∧ n < 0x8000000000000000 then some (Int64.ofInt n) else none

def add? (a b : Word) : Option Word := ofInt? (a.toInt + b.toInt)

def mul? (a b : Word) : Option Word := ofInt? (a.toInt * b.toInt)

/-- One for true, zero for false. -/
def ofBool (b : Bool) : Word := if b then 1 else 0

/-- The sign of a word: -1, 0 or 1. -/
def sign (w : Word) : Word := Int64.ofInt w.toInt.sign

/-- The value of a word that is not negative. -/
def toNat? (w : Word) : Option Nat :=
  match w.toInt with
  | .ofNat a => some a
  | .negSucc _ => none

def text (w : Word) : String := toString w.toInt

theorem ofInt?_eq_some_iff {n : Int} {w : Word} : ofInt? n = some w ↔ w.toInt = n := by
  unfold ofInt?
  split
  · rename_i h
    constructor
    · intro he
      obtain rfl := Option.some.inj he
      exact Int64.toInt_ofInt_of_le h.1 h.2
    · rintro rfl
      simp
  · rename_i h
    constructor
    · intro he
      cases he
    · rintro rfl
      exact absurd ⟨Int64.le_toInt w, Int64.toInt_lt w⟩ h

theorem ofInt?_eq_none_iff {n : Int} : ofInt? n = none ↔
    n < -0x8000000000000000 ∨ 0x8000000000000000 ≤ n := by
  unfold ofInt?
  split <;> rename_i h
  · constructor
    · intro he
      cases he
    · intro hn
      omega
  · constructor
    · intro _
      omega
    · intro _
      rfl

theorem add?_eq_some_iff {a b c : Word} : add? a b = some c ↔ c.toInt = a.toInt + b.toInt :=
  ofInt?_eq_some_iff

theorem toNat?_eq_some_iff {w : Word} {a : Nat} : toNat? w = some a ↔ w.toInt = a := by
  unfold toNat?
  split <;> rename_i h <;> rw [h]
  · simp only [Option.some.injEq, Int.ofNat_eq_natCast]
    omega
  · constructor
    · intro he
      cases he
    · intro he
      omega

theorem toNat?_eq_none_iff {w : Word} : toNat? w = none ↔ w.toInt < 0 := by
  unfold toNat?
  split <;> rename_i h <;> rw [h]
  · simp
  · simp only [true_iff]
    exact Int.negSucc_lt_zero _

example : add? 9223372036854775807 1 = none := by decide
example : mul? 34915192 34915192 = some 1219070632396864 := by decide

end Word

end Intcode
