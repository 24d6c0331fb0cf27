import Intcode.Proofs.Circuit.Report

/-!
# Chains compose

A chain in which all stages end is the composition of runs of single machines, whatever the order in
which the stages acted: each machine runs alone on its phase and on what the one before it emitted.
-/

namespace Intcode

namespace Stage

/-- The outcome of the machine of a stage alone and what it emits, if it ends in time. Where its
inputs end, it lacks its connection. -/
def aloneResult (fuel : Nat) (p : Program) (debug : Bool) (index : Nat) (script : List Word) :
    Option (Outcome × List Word) :=
  match (alone p debug index script).run fuel with
  | (some e, r) => (Outcome.ofEnd? (label index) e).map fun o => (o, r.output.toList)
  | (none, _) => none

/-- The outcomes of machines that run one after the other, each on its phase and on what the one
before it emitted, and what the last one emitted. The first one finds `carried` behind its phase. -/
def composed (fuel : Nat) (p : Program) (debug : Bool) :
    Nat → List Word → List Word → Option (List Outcome × List Word)
  | _, [], carried => some ([], carried)
  | index, phase :: phases, carried =>
    (aloneResult fuel p debug index (phase :: carried)).bind fun first =>
      (composed fuel p debug (index + 1) phases first.2).map fun rest =>
        (first.1 :: rest.1, rest.2)

variable {p : Program} {debug : Bool}

theorem aloneResult_eq (fuel : Nat) (p : Program) (debug : Bool) (index : Nat)
    (script : List Word) :
    aloneResult fuel p debug index script =
      (aloneFor p debug index script fuel).1.bind fun e =>
        (Outcome.ofEnd? (label index) e).map fun o =>
          (o, (aloneFor p debug index script fuel).2.output.toList) := by
  rw [aloneResult, Rig.run_eq, ← aloneFor]
  obtain ⟨e, r⟩ := aloneFor p debug index script fuel
  cases e <;> rfl

/-- A stage that is over has done what its machine does alone on what the stage was fed. -/
theorem Life.ends_alone {index : Nat} {cpu : Processor Unit} {inbox : Wire}
    {fed emitted : List Word} {o : Outcome} (life : Life p debug index cpu inbox fed emitted)
    (finished : cpu.over? = some o) :
    ∃ bound, ∀ fuel, bound ≤ fuel → aloneResult fuel p debug index fed = some (o, emitted) := by
  obtain ⟨n, follows⟩ := life.follows
  have run := follows fed (List.prefix_refl _) fun _ => rfl
  refine ⟨n, fun fuel late => ?_⟩
  have same := aloneFor_of_le late (run.ended (by rw [finished]; nofun))
  have ending := run.outcome
  rw [finished, Option.map_some, Option.map_eq_some_iff] at ending
  obtain ⟨e, ended, outcome⟩ := ending
  rw [aloneResult_eq, same, ended, Option.bind_some, outcome, run.emitted]
  rfl

/-- A row in which all stages are over is a composition. -/
theorem Row.composes {index : Nat} {phase : Word} {carried phases emitted : List Word}
    {stages : List Stage} {outlet : Wire} {outcomes : List Outcome}
    (row : Row p debug index (phase :: carried) phases stages outlet emitted)
    (finished : overs stages = outcomes.map some) :
    ∃ bound, ∀ fuel, bound ≤ fuel →
      composed fuel p debug index (phase :: phases) carried = some (outcomes, emitted) := by
  generalize script : phase :: carried = fed at row
  induction row generalizing phase carried outcomes with
  | last life accepts =>
    subst script
    cases outcomes with
    | nil => cases finished
    | cons o outcomes =>
      obtain ⟨first, others⟩ := List.cons_eq_cons.mp finished
      obtain rfl : outcomes = [] := List.map_eq_nil_iff.mp others.symm
      obtain ⟨bound, alone⟩ := life.ends_alone first
      refine ⟨bound, fun fuel late => ?_⟩
      rw [composed, alone fuel late]
      rfl
  | cons life accepts starves unheard row ih =>
    subst script
    cases outcomes with
    | nil => cases finished
    | cons o outcomes =>
      obtain ⟨first, others⟩ := List.cons_eq_cons.mp finished
      obtain ⟨bound, alone⟩ := life.ends_alone first
      obtain ⟨bound', rest⟩ := ih others rfl
      refine ⟨max bound bound', fun fuel late => ?_⟩
      rw [composed, alone fuel (by omega), Option.bind_some, rest fuel (by omega)]
      rfl

end Stage

namespace Chain

theorem row_of_reaches {p : Program} {phase signal : Word} {phases : List Word} {debug : Bool}
    {c : Chain} (reached : Reaches (load p (phase :: phases) signal debug) c) :
    Stage.Row p debug 0 [phase, signal] phases c.stages c.outlet c.outlet.toList := by
  induction reached with
  | refl =>
    have inbox : ((Wire.ofList [phase]).push signal).2.close.toList = [phase, signal] := rfl
    exact .start _ inbox rfl rfl rfl phases
  | act i reached here ih =>
    obtain ⟨row, moves⟩ := ih.act here
    rw [← moves.said] at row
    exact row

theorem eq_load_of_reaches {p : Program} {signal : Word} {debug : Bool} {c : Chain}
    (reached : Reaches (load p [] signal debug) c) : c = load p [] signal debug := by
  induction reached with
  | refl => rfl
  | act i reached here ih =>
    rw [ih] at here
    exact absurd here (Nat.not_lt_zero i)

/-- Chains that have ended report what the composition of single runs comes to. -/
theorem ended_reports_composed (p : Program) (phases : List Word) (signal : Word) (debug : Bool)
    {c : Chain} (reached : Reaches (load p phases signal debug) c) (ended : System.ended c = true) :
    ∃ bound outcomes emitted,
      (∀ fuel, bound ≤ fuel →
        Stage.composed fuel p debug 0 phases [signal] = some (outcomes, emitted)) ∧
      Reported outcomes emitted c.result := by
  obtain ⟨outcomes, all⟩ := Option.isSome_iff_exists.mp ended
  have result := reported_faultOf outcomes c.outlet.toList
  cases phases with
  | nil =>
    obtain rfl := eq_load_of_reaches reached
    cases all
    exact ⟨0, [], [signal], fun _ _ => rfl, result⟩
  | cons phase phases =>
    have row := row_of_reaches reached
    obtain ⟨bound, alone⟩ := row.composes (Stage.overs_of_outcomes all)
    refine ⟨bound, outcomes, c.outlet.toList, alone, ?_⟩
    rw [Chain.result, all]
    exact result

def adding : Chain := load ⟨#[3, 0, 3, 1, 1, 0, 1, 2, 4, 2, 99]⟩ [1, 2] 5 false

/-- The adding chain after a run in which its stages take turns. -/
theorem adding_reports_composed :
    Reaches adding (settle 100 adding) ∧ System.ended (settle 100 adding) = true ∧
      ∃ bound outcomes emitted,
        (∀ fuel, bound ≤ fuel →
          Stage.composed fuel ⟨#[3, 0, 3, 1, 1, 0, 1, 2, 4, 2, 99]⟩ false 0 [1, 2] [5] =
            some (outcomes, emitted)) ∧
        Reported outcomes emitted (settle 100 adding).result :=
  have reached : Reaches adding (settle 100 adding) := reaches_settle 100 adding
  have ended : System.ended (settle 100 adding) = true := by decide +kernel
  ⟨reached, ended, ended_reports_composed _ [1, 2] 5 false reached ended⟩

end Chain

end Intcode
