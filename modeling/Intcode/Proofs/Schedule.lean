import Intcode.Schedule

/-!
# Observed runs

A run together with what is seen of it: each act of a unit may show some values, and an observer
notes all of them in the order of the acts. Where the steps of a run are given as a list, a property
is kept up to the first step that breaks it.
-/

namespace Intcode

/-- Acts of units lead from `s` to another state, in any order, and show these values. -/
inductive Observed {σ α : Type} [System σ] (shown : σ → Nat → List α) (s : σ) : List α → σ → Prop
  | refl : Observed shown s [] s
  | act {seen : List α} {t : σ} (i : Nat) : Observed shown s seen t → i < System.units t →
      Observed shown s (seen ++ shown t i) (System.act t i).1

variable {σ α : Type} [System σ] {shown : σ → Nat → List α} {s t : σ}

/-- Every run can be observed. -/
theorem Reaches.observed (shown : σ → Nat → List α) (reached : Reaches s t) :
    ∃ seen, Observed shown s seen t := by
  induction reached with
  | refl => exact ⟨[], .refl⟩
  | act i _ here ih =>
    obtain ⟨seen, run⟩ := ih
    exact ⟨_, run.act i here⟩

/-- A property that no step breaks, unless the step is of an excepted kind, holds after any number
of steps, unless one of them was of that kind. -/
theorem foldl_keeps_or {σ α : Type} {next : σ → α → σ} (keeps : σ → Prop)
    (except : σ → α → Prop) (step : ∀ s a, keeps s → keeps (next s a) ∨ except s a)
    (steps : List α) {s : σ} (now : keeps s) :
    keeps (steps.foldl next s) ∨
      ∃ before a after, steps = before ++ a :: after ∧ except (before.foldl next s) a := by
  induction steps generalizing s with
  | nil => exact .inl now
  | cons a steps ih =>
    rcases step s a now with kept | broken
    · rcases ih kept with kept | ⟨before, b, after, rfl, broken⟩
      · exact .inl kept
      · exact .inr ⟨a :: before, b, after, rfl, broken⟩
    · exact .inr ⟨[], a, steps, rfl, broken⟩

end Intcode
