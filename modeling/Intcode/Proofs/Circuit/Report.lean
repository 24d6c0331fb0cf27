import Intcode.Circuit.Chain
import Intcode.Proofs.Circuit.Row

/-!
# Reports of stages

What stages in a row report in the end depends on their outcomes and on what the last one emitted.
A lack of connection is only the consequence of another stage's end, so it is reported only if
nothing else went wrong; otherwise the first fault in the order of the stages is.
-/

namespace Intcode

/-- A result reports the outcomes of stages in a row of which the last emitted `emitted`. -/
structure Reported (outcomes : List Outcome) (emitted : List Word)
    (result : Except Failure (Option Word)) : Prop where
  halted : (∀ o ∈ outcomes, ∃ s, o = .ok s) → result = .ok emitted.getLast?
  cause : ∀ before f after, outcomes = before ++ .error f :: after → f ≠ .notConnected →
    (∀ g, .error g ∈ before → g = .notConnected) → result = .error (.fault f)
  starved : result = .error (.fault .notConnected) ↔
    .error .notConnected ∈ outcomes ∧ ∀ f, .error f ∈ outcomes → f = .notConnected

theorem firstCause_append {before : List Outcome} (after : List Outcome)
    (starved : ∀ g, .error g ∈ before → g = .notConnected) :
    firstCause (before ++ after) = firstCause after := by
  induction before with
  | nil => rfl
  | cons o before ih =>
    have rest := ih fun g h => starved g (List.mem_cons_of_mem o h)
    cases o with
    | ok s => exact rest
    | error f =>
      simp only [List.cons_append, firstCause, starved f List.mem_cons_self, if_true]
      exact rest

theorem firstCause_eq_none_iff {outcomes : List Outcome} :
    firstCause outcomes = none ↔ ∀ f, .error f ∈ outcomes → f = .notConnected := by
  induction outcomes with
  | nil => simp [firstCause]
  | cons o outcomes ih =>
    cases o with
    | ok s => simp [firstCause, ih]
    | error f =>
      by_cases starved : f = .notConnected
      · simp [firstCause, starved, ih]
      · simp [firstCause, starved]

theorem firstCause_ne (outcomes : List Outcome) : firstCause outcomes ≠ some .notConnected := by
  induction outcomes with
  | nil => nofun
  | cons o outcomes ih =>
    cases o with
    | ok s => exact ih
    | error f =>
      rw [firstCause]
      split
      · exact ih
      · rename_i other
        exact fun h => other (Option.some.inj h)

theorem any_failed_iff (outcomes : List Outcome) :
    (outcomes.any fun o => o.toOption.isNone) = true ↔ ∃ f, .error f ∈ outcomes := by
  rw [List.any_eq_true]
  constructor
  · rintro ⟨o, here, failed⟩
    cases o with
    | ok s => cases failed
    | error f => exact ⟨f, here⟩
  · rintro ⟨f, here⟩
    exact ⟨.error f, here, rfl⟩

theorem faultOf_eq_none {outcomes : List Outcome} (halted : ∀ o ∈ outcomes, ∃ s, o = .ok s) :
    faultOf outcomes = none := by
  have unfailed : ∀ f, .error f ∉ outcomes := by
    intro f here
    obtain ⟨s, ok⟩ := halted _ here
    cases ok
  have causeless := firstCause_eq_none_iff.mpr fun f here => absurd here (unfailed f)
  have unmarked : ¬ (outcomes.any fun o => o.toOption.isNone) = true := by
    rw [any_failed_iff]
    rintro ⟨f, here⟩
    exact unfailed f here
  rw [faultOf, causeless]
  exact if_neg unmarked

theorem faultOf_eq_notConnected_iff {outcomes : List Outcome} :
    faultOf outcomes = some .notConnected ↔
      .error .notConnected ∈ outcomes ∧ ∀ f, .error f ∈ outcomes → f = .notConnected := by
  rw [faultOf]
  rw [← firstCause_eq_none_iff]
  cases cause : firstCause outcomes with
  | some f =>
    have other : f ≠ .notConnected := fun same => firstCause_ne outcomes (by rw [cause, same])
    simp [other]
  | none =>
    have starved := firstCause_eq_none_iff.mp cause
    have failed : .error .notConnected ∈ outcomes ↔ ∃ f, .error f ∈ outcomes := by
      constructor
      · intro here
        exact ⟨_, here⟩
      · rintro ⟨f, here⟩
        rw [← starved f here]
        exact here
    rw [failed, ← any_failed_iff]
    simp

/-- The fault to report, or else the last value, is the right report. -/
theorem reported_faultOf (outcomes : List Outcome) (emitted : List Word) :
    Reported outcomes emitted (match faultOf outcomes with
      | some f => .error (.fault f)
      | none => .ok emitted.getLast?) := by
  refine ⟨?_, ?_, ?_⟩
  · intro halted
    rw [faultOf_eq_none halted]
  · intro before f after split other starved
    have first : firstCause outcomes = some f := by
      rw [split, firstCause_append _ starved]
      exact if_neg other
    rw [faultOf, first]
  · rw [← faultOf_eq_notConnected_iff]
    cases faultOf outcomes <;> simp

namespace Stage

theorem overs_of_outcomes {stages : List Stage} {outcomes : List Outcome}
    (ended : outcomes? stages = some outcomes) : overs stages = outcomes.map some := by
  induction stages generalizing outcomes with
  | nil =>
    cases ended
    rfl
  | cons s stages ih =>
    simp only [outcomes?, List.mapM_cons, Option.bind_eq_bind, Option.bind_eq_some_iff] at ended
    obtain ⟨o, first, rest, others, collected⟩ := ended
    cases collected
    exact List.cons_eq_cons.mpr ⟨Processor.over?_of_ended first, ih others⟩

/-- When all stages have ended, their runs are over, and their outcomes are known from that. -/
theorem outcomes_over {stages : List Stage} {outcomes : List Outcome}
    (ended : outcomes? stages = some outcomes) : none ∉ overs stages := by
  rw [overs_of_outcomes ended, List.mem_map]
  rintro ⟨o, -, h⟩
  cases h

theorem outcomes_eq {stages stages' : List Stage} {outcomes outcomes' : List Outcome}
    (ended : outcomes? stages = some outcomes) (ended' : outcomes? stages' = some outcomes')
    (same : overs stages' = overs stages) : outcomes' = outcomes := by
  rw [overs_of_outcomes ended, overs_of_outcomes ended'] at same
  exact (List.map_inj_right fun _ _ => Option.some.inj).mp same

end Stage

end Intcode
