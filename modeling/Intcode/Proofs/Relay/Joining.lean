import Intcode.Channel.Endpoint
import Intcode.Proofs.Relay.Course
import Intcode.Proofs.Schedule
import Mathlib.Data.List.Basic

/-!
# Joining a relay

Who joins a relay after its start waits for the loop and is told what the loop itself came to, and
every join says the same. That is so unless somebody has joined the relay before it was started:
such a join has nothing to wait for and succeeds, and its answer is kept for all later ones,
whatever becomes of the loop.
-/

namespace Intcode

namespace Relay

theorem over?_phaseOfStop (id : String) (s : Stop) :
    (phaseOfStop id s).over? = Outcome.ofStop? id s := by
  cases s <;> rfl

/-- A join came before every start. -/
def Turn.Hasty (turns : List Turn) : Prop :=
  ∃ early rest, turns = early ++ .join :: rest ∧ .start ∉ early

namespace Course

variable {τ ι ω : Type} [Device τ] [Channel ι] [Channel ω] {c : Course τ ι ω} {o : Outcome}

/-- The next act of the relay ends its loop with this outcome. -/
inductive Exits (c : Course τ ι ω) : Outcome → Prop
  /-- What was counted when the stop was noticed has been taken. -/
  | flushed (here : c.relay.phase = .flushing 0) : Exits c (.ok ())
  /-- Less was queued than had been counted. -/
  | drained {left : Nat} (here : c.relay.phase = .flushing (left + 1))
      (got : (Channel.poll c.input).1 = .ok none) : Exits c (.ok ())
  /-- The input is closed and has been emptied. -/
  | starved (here : c.relay.phase = .polling)
      (got : (Channel.poll c.input).1 = .error (.fault .notConnected)) : Exits c (.ok ())
  | pollFails {s : Stop} {o : Outcome} (here : c.relay.phase = .polling)
      (got : (Channel.poll c.input).1 = .error s) (other : s ≠ .fault .notConnected)
      (ends : Outcome.ofStop? c.relay.id s = some o) : Exits c o
  | flushFails {left : Nat} {s : Stop} {o : Outcome} (here : c.relay.phase = .flushing (left + 1))
      (got : (Channel.poll c.input).1 = .error s)
      (ends : Outcome.ofStop? c.relay.id s = some o) : Exits c o
  | putFails {w : Word} {left : Option Nat} {s : Stop} {o : Outcome}
      (here : c.relay.phase = .answering w left) (put : (Channel.put c.output w).1 = .error s)
      (ends : Outcome.ofStop? c.relay.id s = some o) : Exits c o
  /-- The device breaks down, and the loop with it. -/
  | deviceFails {v : Word} {left : Option Nat} (here : c.relay.phase = .holding v left)
      (said : (Device.respond c.relay.device v).answer = .crash) :
      Exits c (.error (.relayCrashed c.relay.id))

theorem exits_of_poll (here : c.relay.phase = .polling)
    (ended : (phaseAfterPoll c.relay.id (Channel.poll c.input).1).over? = some o) : c.Exits o := by
  cases got : (Channel.poll c.input).1 with
  | ok v? =>
    rw [got] at ended
    cases v? <;> cases ended
  | error s =>
    rw [got] at ended
    by_cases closed : s = .fault .notConnected
    · subst closed
      cases ended
      exact .starved here got
    · refine .pollFails here got closed ?_
      rw [← over?_phaseOfStop, ← ended]
      cases s with
      | fault f =>
        cases f with
        | notConnected => exact absurd rfl closed
        | _ => rfl
      | blocked | crashed => rfl

theorem exits_of_flush {left : Nat} (here : c.relay.phase = .flushing (left + 1))
    (ended : (phaseAfterFlush c.relay.id left (Channel.poll c.input).1).over? = some o) :
    c.Exits o := by
  cases got : (Channel.poll c.input).1 with
  | ok v? =>
    rw [got] at ended
    cases v? with
    | some v => cases ended
    | none =>
      cases ended
      exact .drained here got
  | error s =>
    rw [got] at ended
    exact .flushFails here got ((over?_phaseOfStop _ s).symm.trans ended)

theorem exits_of_telling {v : Word} {left : Option Nat} (here : c.relay.phase = .holding v left)
    (ended : (phaseAfterTelling c.relay.id left
      (Device.respond c.relay.device v).answer).over? = some o) : c.Exits o := by
  cases said : (Device.respond c.relay.device v).answer with
  | reply w =>
    rw [said] at ended
    cases ended
  | silent =>
    rw [said] at ended
    cases (Phase.over?_resume left).symm.trans ended
  | crash =>
    rw [said] at ended
    cases ended
    exact .deviceFails here said

/-- An act that ends the loop is one of those that do. -/
theorem exits_of_act (running : c.relay.phase.over? = none)
    (ended : c.act.relay.phase.over? = some o) : c.Exits o := by
  cases here : c.relay.phase with
  | ready =>
    rw [act_of_ready here, running] at ended
    cases ended
  | checking =>
    rw [act_of_checking here] at ended
    split at ended <;> cases ended
  | polling =>
    rw [act_of_polling here] at ended
    exact exits_of_poll here ended
  | tallying =>
    rw [act_of_tallying here] at ended
    cases ended
  | flushing left =>
    cases left with
    | zero =>
      rw [act_of_flushed here] at ended
      cases ended
      exact .flushed here
    | succ left =>
      rw [act_of_flushing here] at ended
      exact exits_of_flush here ended
  | holding v left =>
    rw [act_of_holding here] at ended
    exact exits_of_telling here ended
  | answering w left =>
    cases put : Channel.put c.output w with
    | mk accepted output =>
      cases accepted with
      | ok u =>
        rw [act_of_accepted here put] at ended
        cases (Phase.over?_resume left).symm.trans ended
      | error s =>
        rw [act_of_refused here put] at ended
        exact .putFails here (congrArg Prod.fst put) ((over?_phaseOfStop _ s).symm.trans ended)
  | closing _ | leaving _ | ended _ =>
    rw [here] at running
    cases running

/-- Only the relay itself ends its loop. -/
theorem exits_of_next (running : c.relay.phase.over? = none) {turn : Turn}
    (ended : (c.next turn).relay.phase.over? = some o) : turn = .act ∧ c.Exits o := by
  have stays (same : (c.next turn).relay.phase.over? = c.relay.phase.over?) : False := by
    cases running.symm.trans (same.symm.trans ended)
  cases turn with
  | act => exact ⟨rfl, exits_of_act running ended⟩
  | start =>
    obtain ⟨⟨id, device, stopped, interval, phase, joined⟩, input, output⟩ := c
    cases phase <;> exact (stays rfl).elim
  | join => exact (stays (congrArg Phase.over? (phase_join c.relay).1)).elim
  | stop | input use | output use => exact (stays rfl).elim

/-- A loop that is over has been ended by an act of the relay, with that outcome. -/
theorem exits_of_run (fresh : c.relay.phase.over? = none) {turns : List Turn}
    (ended : (c.run turns).relay.phase.over? = some o) :
    ∃ before after, turns = before ++ .act :: after ∧ (c.run before).Exits o := by
  have step : ∀ (c : Course τ ι ω) turn, c.relay.phase.over? = none →
      (c.next turn).relay.phase.over? = none ∨
        turn = .act ∧ ∃ o, c.Exits o ∧ (c.next turn).relay.phase.over? = some o := by
    intro c turn running
    cases isOver : (c.next turn).relay.phase.over? with
    | none => exact .inl rfl
    | some o =>
      obtain ⟨rfl, exits⟩ := exits_of_next running isOver
      exact .inr ⟨rfl, o, exits, rfl⟩
  rcases foldl_keeps_or _ _ step turns fresh with running | ⟨before, turn, after, rfl, broke⟩
  · cases running.symm.trans ended
  · obtain ⟨rfl, o', exits, isOver⟩ := broke
    have finished : (c.run (before ++ .act :: after)).relay.phase.over? = some o' := by
      rw [run_append]
      exact over_run isOver after
    obtain rfl := Option.some.inj (finished.symm.trans ended)
    exact ⟨before, after, rfl, exits⟩

theorem joined_act (c : Course τ ι ω) : c.act.relay.joined = c.relay.joined := by
  cases here : c.relay.phase with
  | ready => rw [act_of_ready here]
  | checking =>
    rw [act_of_checking here]
    split <;> rfl
  | polling => rw [act_of_polling here]; rfl
  | tallying => rw [act_of_tallying here]; rfl
  | flushing left =>
    cases left with
    | zero => rw [act_of_flushed here]; rfl
    | succ left => rw [act_of_flushing here]; rfl
  | holding v left => rw [act_of_holding here]
  | answering w left =>
    cases put : Channel.put c.output w with
    | mk accepted output =>
      cases accepted with
      | ok u => rw [act_of_accepted here put]; rfl
      | error s => rw [act_of_refused here put]; rfl
  | closing o => rw [act_of_closing here]; rfl
  | leaving o => rw [act_of_leaving here]; rfl
  | ended o => rw [act_of_ended here]

/-- An answer that a join has given is kept. -/
theorem joined_next (answered : c.relay.joined = some o) (turn : Turn) :
    (c.next turn).relay.joined = some o := by
  cases turn with
  | act => exact c.joined_act.trans answered
  | start | join =>
    obtain ⟨⟨id, device, stopped, interval, phase, joined⟩, input, output⟩ := c
    cases answered
    cases phase <;> rfl
  | stop | input use | output use => exact answered

theorem joined_run (answered : c.relay.joined = some o) (turns : List Turn) :
    (c.run turns).relay.joined = some o := by
  induction turns generalizing c with
  | nil => exact answered
  | cons t turns ih => exact ih (joined_next answered t)

omit [Device τ] in
theorem join_of_joined {r : Relay τ} (answered : r.joined = some o) : r.join.1 = some o := by
  rw [join, answered]

/-- Nobody has started the relay. What joins it then succeeds. -/
structure Untouched (c : Course τ ι ω) : Prop where
  ready : c.relay.phase = .ready
  joined : c.relay.joined = none ∨ c.relay.joined = some (.ok ())

theorem Untouched.answered (untouched : c.Untouched) :
    (c.next .join).relay.joined = some (.ok ()) := by
  obtain ⟨ready, joined⟩ := untouched
  obtain ⟨⟨id, device, stopped, interval, phase, joined'⟩, input, output⟩ := c
  cases ready
  rcases joined with rfl | rfl <;> rfl

theorem Untouched.next (untouched : c.Untouched) {turn : Turn} (other : turn ≠ .start) :
    (c.next turn).Untouched ∧ (turn ≠ .join → (c.next turn).relay.joined = c.relay.joined) := by
  obtain ⟨ready, joined⟩ := untouched
  cases turn with
  | start => exact absurd rfl other
  | join =>
    refine ⟨⟨(phase_join c.relay).1.trans ready, .inr ?_⟩, fun no => absurd rfl no⟩
    exact Untouched.answered ⟨ready, joined⟩
  | act =>
    rw [Course.next, act_of_ready ready]
    exact ⟨⟨ready, joined⟩, fun _ => rfl⟩
  | stop | input use | output use => exact ⟨⟨ready, joined⟩, fun _ => rfl⟩

theorem Untouched.run (untouched : c.Untouched) {turns : List Turn} (early : .start ∉ turns) :
    (c.run turns).Untouched ∧
      (.join ∉ turns → (c.run turns).relay.joined = c.relay.joined) := by
  induction turns generalizing c with
  | nil => exact ⟨untouched, fun _ => rfl⟩
  | cons t turns ih =>
    obtain ⟨other, later⟩ := not_or.mp (mt List.mem_cons.mpr early)
    obtain ⟨still, kept⟩ := untouched.next (Ne.symm other)
    obtain ⟨ends, keeps⟩ := ih still later
    refine ⟨ends, fun quiet => ?_⟩
    obtain ⟨silent, quiet⟩ := not_or.mp (mt List.mem_cons.mpr quiet)
    exact (keeps quiet).trans (kept (Ne.symm silent))

/-- The relay has been started, and an answer that a join has given is that of the ended loop. -/
structure Truthful (c : Course τ ι ω) : Prop where
  started : c.relay.phase ≠ .ready
  joined : ∀ o, c.relay.joined = some o → c.relay.phase = .ended o

omit [Device τ] [Channel ι] [Channel ω] in
/-- A join then answers when the loop has ended, and what it has ended with. -/
theorem Truthful.join_eq (truthful : c.Truthful) : c.relay.join.1 = c.relay.outcome? := by
  obtain ⟨started, kept⟩ := truthful
  obtain ⟨⟨id, device, stopped, interval, phase, joined⟩, input, output⟩ := c
  cases joined with
  | some o =>
    cases kept o rfl
    rfl
  | none =>
    cases phase with
    | ready => exact absurd rfl started
    | _ => rfl

theorem Truthful.next (truthful : c.Truthful) (turn : Turn) : (c.next turn).Truthful := by
  obtain ⟨started, kept⟩ := truthful
  cases turn with
  | start =>
    rw [Course.next, start_of_started started]
    exact ⟨started, kept⟩
  | join =>
    obtain ⟨⟨id, device, stopped, interval, phase, joined⟩, input, output⟩ := c
    cases joined with
    | some o => exact ⟨started, kept⟩
    | none =>
      cases phase with
      | ready => exact absurd rfl started
      | ended o =>
        refine ⟨Phase.noConfusion, fun o' answered => ?_⟩
        cases answered
        rfl
      | _ =>
        refine ⟨Phase.noConfusion, fun o answered => ?_⟩
        cases answered
  | act =>
    refine ⟨started_act started, fun o answered => ?_⟩
    have ended := kept o (c.joined_act.symm.trans answered)
    rw [Course.next, act_of_ended ended]
    exact ended
  | stop | input use | output use => exact ⟨started, kept⟩

theorem Truthful.run (truthful : c.Truthful) (turns : List Turn) : (c.run turns).Truthful := by
  induction turns generalizing c with
  | nil => exact truthful
  | cons t turns ih => exact ih (truthful.next t)

/-- A relay that nobody has joined before its start says the truth from then on. -/
theorem truthful_of_patient (ready : c.relay.phase = .ready) (unjoined : c.relay.joined = none)
    {turns : List Turn} (started : .start ∈ turns) (patient : ¬ Turn.Hasty turns) :
    (c.run turns).Truthful := by
  obtain ⟨early, rest, rfl, fresh⟩ := List.eq_append_cons_of_mem started
  have quiet : .join ∉ early := by
    intro joins
    obtain ⟨first, second, rfl⟩ := List.append_of_mem joins
    refine patient ⟨first, second ++ .start :: rest, by simp, fun starts => fresh ?_⟩
    exact List.mem_append_left _ starts
  obtain ⟨untouched, kept⟩ := Untouched.run ⟨ready, .inl unjoined⟩ fresh
  rw [run_append]
  refine Truthful.run (c := (c.run early).next .start) ⟨?_, ?_⟩ rest
  · rw [Course.next, start, untouched.ready]
    simp
  · intro o answered
    rw [Course.next, start, untouched.ready] at answered
    cases unjoined.symm.trans ((kept quiet).symm.trans answered)

/-- Whatever happens to a relay that has been started: a join answers when its loop has ended, and
then with the outcome that an act of the relay ended it with; and so do all later joins. But if a
join came before the start, every join says that all went well. -/
theorem join_answers_outcome (id : String) (device : τ) (interval : Nat) (input : ι) (output : ω)
    {turns : List Turn} (started : .start ∈ turns) :
    let fresh : Course τ ι ω := { relay := { id, device, interval }, input, output }
    let c := fresh.run turns
    (¬ Turn.Hasty turns →
      c.relay.join.1 = c.relay.outcome? ∧
      ∀ o, c.relay.join.1 = some o →
        c.relay.phase = .ended o ∧
        (∃ before after, turns = before ++ .act :: after ∧ (fresh.run before).Exits o) ∧
        ∀ later, (fresh.run (turns ++ later)).relay.join.1 = some o) ∧
    (Turn.Hasty turns → c.relay.join.1 = some (.ok ())) := by
  intro fresh c
  constructor
  · intro patient
    have truthful : c.Truthful := truthful_of_patient rfl rfl started patient
    refine ⟨truthful.join_eq, fun o answered => ?_⟩
    have ended : c.relay.phase = .ended o := phase_of_outcome (truthful.join_eq ▸ answered)
    have finished : c.relay.phase.over? = some o := by
      rw [ended]
      rfl
    refine ⟨ended, exits_of_run rfl finished, fun later => ?_⟩
    have still : (c.run later).Truthful := truthful.run later
    rw [run_append, still.join_eq, outcome?, ended_run ended later]
  · rintro ⟨early, rest, rfl, unstarted⟩
    have untouched := (Untouched.run (c := fresh) ⟨rfl, .inl rfl⟩ unstarted).1
    have kept : (fresh.run (early ++ .join :: rest)).relay.joined = some (.ok ()) := by
      rw [run_append]
      exact joined_run untouched.answered rest
    exact join_of_joined kept

/-- A relay with a value to relay and no output, after some turns. -/
def deadEnd (turns : List Turn) : Course Passing Wire Endpoint :=
  (load "R" {} (Wire.ofList [1]) Endpoint.unplugged).run turns

def startToEnd : List Turn := .start :: .replicate 6 .act

/-- A relay that nobody has joined before its start says that its put has failed. -/
theorem patient_join_tells_fault :
    .start ∈ startToEnd ∧ ¬ Turn.Hasty startToEnd ∧
      (deadEnd startToEnd).relay.join.1 = some (.error .notConnected) ∧
      (∃ before after, startToEnd = before ++ .act :: after ∧
        (deadEnd before).Exits (.error .notConnected)) ∧
      (deadEnd (startToEnd ++ [.join])).relay.join.1 = some (.error .notConnected) := by
  have started : .start ∈ startToEnd := .head _
  have patient : ¬ Turn.Hasty startToEnd := by
    rintro ⟨early, rest, split, -⟩
    have joins : .join ∈ startToEnd := by
      rw [split]
      exact List.mem_append_right _ (.head _)
    revert joins
    decide
  have outcome : (deadEnd startToEnd).relay.outcome? = some (.error .notConnected) := by
    decide +kernel
  have answers :=
    join_answers_outcome "R" ({} : Passing) 25 (Wire.ofList [1]) Endpoint.unplugged started
  obtain ⟨same, truth⟩ := answers.1 patient
  have answered : (deadEnd startToEnd).relay.join.1 = some (.error .notConnected) :=
    same.trans outcome
  obtain ⟨-, exits, later⟩ := truth _ answered
  exact ⟨started, patient, answered, exits, later [.join]⟩

/-- A relay that was joined before its start says that all went well while its loop still runs, and
also after its put has failed. -/
theorem hasty_join_is_untrue :
    (deadEnd [.join, .start]).relay.join.1 = some (.ok ()) ∧
      (deadEnd [.join, .start]).relay.outcome? = none ∧
      (deadEnd (.join :: startToEnd)).relay.join.1 = some (.ok ()) ∧
      (deadEnd (.join :: startToEnd)).relay.outcome? = some (.error .notConnected) := by
  refine ⟨?_, ?_, ?_, ?_⟩ <;> decide +kernel

end Course

end Relay

end Intcode
