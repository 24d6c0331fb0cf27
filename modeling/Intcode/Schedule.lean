/-!
# Schedules

A system consists of units that act one at a time, in any order. `Reaches` is what any order of
acts can lead to. `settle` follows one order: a unit acts until it has nothing to do, then the next
one gets its turn. It stops once the system has ended, or once every unit has had two turns in a
row with nothing to do, since then nothing can happen any more.
-/

namespace Intcode

class System (σ : Type) where
  /-- The number of units. -/
  units : σ → Nat
  /-- One act of a unit, and whether it did more than look around. -/
  act : σ → Nat → σ × Bool
  /-- Whether every unit has ended. -/
  ended : σ → Bool

/-- The states that acts of units lead to, in any order. -/
inductive Reaches {σ : Type} [System σ] (s : σ) : σ → Prop
  | refl : Reaches s s
  | act {t : σ} (i : Nat) : Reaches s t → i < System.units t → Reaches s (System.act t i).1

/-- Makes at most `fuel` acts. Unit `i` is next, and `idle` turns had nothing to do. -/
def settleFrom {σ : Type} [System σ] : Nat → Nat → Nat → σ → σ
  | 0, _, _, s => s
  | fuel + 1, i, idle, s =>
    if System.ended s || System.units s ≤ i || 2 * System.units s < idle then s
    else
      match System.act s i with
      | (s, true) => settleFrom fuel i 0 s
      | (s, false) =>
        let next := if i + 1 < System.units s then i + 1 else 0
        settleFrom fuel next (idle + 1) s

def settle {σ : Type} [System σ] (fuel : Nat) (s : σ) : σ := settleFrom fuel 0 0 s

theorem Reaches.trans {σ : Type} [System σ] {s t u : σ} (hst : Reaches s t) (htu : Reaches t u) :
    Reaches s u := by
  induction htu with
  | refl => exact hst
  | act i _ hi ih => exact ih.act i hi

theorem reaches_settleFrom {σ : Type} [System σ] (fuel i idle : Nat) (s : σ) :
    Reaches s (settleFrom fuel i idle s) := by
  induction fuel generalizing i idle s with
  | zero => exact .refl
  | succ fuel ih =>
    unfold settleFrom
    split
    · exact .refl
    · rename_i busy
      have unit : i < System.units s := by
        simp only [Bool.or_eq_true, decide_eq_true_eq, not_or] at busy
        omega
      have first : Reaches s (System.act s i).1 := .act i .refl unit
      revert first
      split <;> rename_i h <;> rw [h] <;> intro first <;> exact first.trans (ih _ _ _)

/-- What `settle` leads to is what some order of acts leads to. -/
theorem reaches_settle {σ : Type} [System σ] (fuel : Nat) (s : σ) : Reaches s (settle fuel s) :=
  reaches_settleFrom fuel 0 0 s

end Intcode
