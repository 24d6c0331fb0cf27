import Intcode.Relay

/-!
# What the phase of a relay says

Where a relay's life stands says which value it has in its hand, whether it has noticed a stop and
how many values it may still take because of that, and how its loop has ended.
-/

namespace Intcode

namespace Relay.Phase

/-- The value that was taken and has not been handled. -/
def hand : Phase → List Word
  | .holding v _ | .answering v _ => [v]
  | .ready | .checking | .polling | .tallying | .flushing _ | .closing _ | .leaving _
  | .ended _ => []

/-- The value that the device has said and that has not been put. -/
def reply : Phase → List Word
  | .answering v _ => [v]
  | .ready | .checking | .polling | .tallying | .flushing _ | .holding .. | .closing _ | .leaving _
  | .ended _ => []

/-- How many values the relay may still take, if it has noticed the stop and counted them. -/
def left? : Phase → Option Nat
  | .flushing left => some left
  | .holding _ left | .answering _ left => left
  | .ready | .checking | .polling | .tallying | .closing _ | .leaving _ | .ended _ => none

def over? : Phase → Option Outcome
  | .closing o | .leaving o | .ended o => some o
  | .ready | .checking | .polling | .tallying | .flushing _ | .holding .. | .answering .. => none

/-- Whether the output has been closed, or a crash has skipped that. -/
def isGone : Phase → Bool
  | .leaving _ | .ended _ => true
  | .ready | .checking | .polling | .tallying | .flushing _ | .holding .. | .answering ..
  | .closing _ => false

def refusal? (phase : Phase) : Option Stop :=
  match phase.over? with
  | some (.error f) => some (.fault f)
  | some (.ok ()) | none => none

/-- Whether a relay that came to an orderly end has closed its output. -/
def closes : Phase → Bool
  | .leaving (.ok ()) | .ended (.ok ()) => true
  | _ => false

theorem over?_of_isGone {phase : Phase} (gone : phase.isGone = true) :
    ∃ o, phase.over? = some o := by
  cases phase with
  | leaving o => exact ⟨o, rfl⟩
  | ended o => exact ⟨o, rfl⟩
  | _ => cases gone

theorem hand_of_over {phase : Phase} {o : Outcome} (ended : phase.over? = some o) :
    phase.hand = [] := by
  cases phase with
  | closing _ | leaving _ | ended _ => rfl
  | _ => cases ended

theorem refusal?_of_running {phase : Phase} (running : phase.over? = none) :
    phase.refusal? = none := by
  rw [refusal?, running]

theorem over?_of_refusal {phase : Phase} (refused : phase.refusal? ≠ none) :
    ∃ f, phase.over? = some (.error f) := by
  rw [refusal?] at refused
  split at refused
  · rename_i f failed
    exact ⟨f, failed⟩
  · exact absurd rfl refused
  · exact absurd rfl refused

theorem closes_of_unfinished {phase : Phase} (unfinished : phase.over? ≠ some (.ok ())) :
    phase.closes = false := by
  rw [Bool.eq_false_iff]
  intro closes
  unfold Phase.closes at closes
  split at closes
  · exact unfinished rfl
  · exact unfinished rfl
  · cases closes

def isStopping : Phase → Bool
  | .tallying => true
  | phase => phase.left?.isSome

theorem isStopping_of_left {phase : Phase} {left : Nat} (noted : phase.left? = some left) :
    phase.isStopping = true := by
  cases phase with
  | flushing _ => rfl
  | holding v counted =>
    cases noted
    rfl
  | answering v counted =>
    cases noted
    rfl
  | _ => cases noted

theorem hand_resume (left : Option Nat) : (resume left).hand = [] := by
  cases left <;> rfl

theorem left?_resume (left : Option Nat) : (resume left).left? = left := by
  cases left <;> rfl

theorem over?_resume (left : Option Nat) : (resume left).over? = none := by
  cases left <;> rfl

theorem isStopping_resume (left : Option Nat) : (resume left).isStopping = left.isSome := by
  cases left <;> rfl

end Relay.Phase

theorem Relay.phase_of_outcome {τ : Type} {r : Relay τ} {o : Relay.Outcome}
    (ended : r.outcome? = some o) : r.phase = .ended o := by
  rw [Relay.outcome?] at ended
  split at ended
  · rename_i o' phase
    obtain rfl := Option.some.inj ended
    exact phase
  · cases ended

end Intcode
