import Intcode.Proofs.Relay.Course
import Intcode.Proofs.Schedule

/-!
# Relays close their outputs

A relay that has ended has closed its output, however it came to its end, unless one of its acts
broke down: a breakdown skips the closing.
-/

namespace Intcode

namespace Relay

theorem Phase.crashed_of_stop {id : String} {s : Stop} (gone : (phaseOfStop id s).isGone = true) :
    s = .crashed := by
  cases s with
  | crashed => rfl
  | fault f | blocked => cases gone

theorem Phase.crashed_of_poll {id : String} {got : Except Stop (Option Word)}
    (gone : (phaseAfterPoll id got).isGone = true) : got = .error .crashed := by
  unfold phaseAfterPoll at gone
  split at gone
  · cases gone
  · cases gone
  · cases gone
  · rw [crashed_of_stop gone]

theorem Phase.crashed_of_flush {id : String} {left : Nat} {got : Except Stop (Option Word)}
    (gone : (phaseAfterFlush id left got).isGone = true) : got = .error .crashed := by
  unfold phaseAfterFlush at gone
  split at gone
  · cases gone
  · cases gone
  · rw [crashed_of_stop gone]

theorem Phase.stays_resume (left : Option Nat) : (resume left).isGone = false := by
  cases left <;> rfl

theorem Phase.crashed_of_telling {id : String} {left : Option Nat} {answer : Answer}
    (gone : (phaseAfterTelling id left answer).isGone = true) : answer = .crash := by
  cases answer with
  | crash => rfl
  | reply w => cases gone
  | silent => cases (stays_resume left).symm.trans gone

namespace Course

variable {τ ι ω : Type} [Device τ] [Channel ι] [Channel ω] {c : Course τ ι ω}

/-- The next act of the relay breaks down, because the device or a channel does. -/
def BreaksDown (c : Course τ ι ω) : Prop :=
  match c.relay.phase with
  | .polling | .flushing (_ + 1) => (Channel.poll c.input).1 = .error .crashed
  | .holding v _ => (Device.respond c.relay.device v).answer = .crash
  | .answering w _ => (Channel.put c.output w).1 = .error .crashed
  | _ => False

variable {shut : ω → Prop} (seals : Channel.Seals shut)

include seals in
/-- A relay that is gone after an act has closed its output, unless the act broke down. -/
theorem act_closes (done : c.relay.phase.isGone = true → shut c.output)
    (gone : c.act.relay.phase.isGone = true) : shut c.act.output ∨ c.BreaksDown := by
  cases here : c.relay.phase with
  | ready =>
    rw [act_of_ready here, here] at gone
    cases gone
  | checking =>
    rw [act_of_checking here] at gone
    split at gone <;> cases gone
  | polling =>
    rw [act_of_polling here] at gone
    right
    rw [BreaksDown, here]
    exact Phase.crashed_of_poll gone
  | tallying =>
    rw [act_of_tallying here] at gone
    cases gone
  | flushing left =>
    cases left with
    | zero =>
      rw [act_of_flushed here] at gone
      cases gone
    | succ left =>
      rw [act_of_flushing here] at gone
      right
      rw [BreaksDown, here]
      exact Phase.crashed_of_flush gone
  | holding v left =>
    rw [act_of_holding here] at gone
    right
    rw [BreaksDown, here]
    exact Phase.crashed_of_telling gone
  | answering w left =>
    cases put : Channel.put c.output w with
    | mk accepted output =>
      cases accepted with
      | ok u =>
        rw [act_of_accepted here put] at gone
        cases (Phase.stays_resume left).symm.trans gone
      | error s =>
        rw [act_of_refused here put] at gone
        right
        rw [BreaksDown, here]
        exact (congrArg Prod.fst put).trans (congrArg _ (Phase.crashed_of_stop gone))
  | closing o =>
    rw [act_of_closing here]
    exact .inl (seals.close c.output)
  | leaving o =>
    rw [act_of_leaving here]
    exact .inl (done (by rw [here]; rfl))
  | ended o =>
    rw [act_of_ended here]
    exact .inl (done (by rw [here]; rfl))

include seals in
theorem next_closes (turn : Turn) (done : c.relay.phase.isGone = true → shut c.output) :
    ((c.next turn).relay.phase.isGone = true → shut (c.next turn).output) ∨
      turn = .act ∧ c.BreaksDown := by
  cases turn with
  | start =>
    obtain ⟨⟨id, device, stopped, interval, phase, joined⟩, input, output⟩ := c
    cases phase with
    | ready => exact .inl nofun
    | _ => exact .inl done
  | join =>
    left
    show c.relay.join.2.phase.isGone = true → shut c.output
    rw [(phase_join c.relay).1]
    exact done
  | act =>
    by_cases broken : c.BreaksDown
    · exact .inr ⟨rfl, broken⟩
    · exact .inl fun gone => (act_closes seals done gone).resolve_right broken
  | stop | input use => exact .inl done
  | output use => exact .inl fun gone => seals.use (done gone) use

/-- The relay has broken down, and nothing changes that. -/
theorem act_breaks (broken : c.BreaksDown) :
    c.act.relay.phase = .leaving (.error (.relayCrashed c.relay.id)) := by
  rw [BreaksDown] at broken
  split at broken
  · rename_i here
    rw [act_of_polling here, broken]
    rfl
  · rename_i here
    rw [act_of_flushing here, broken]
    rfl
  · rename_i here
    rw [act_of_holding here]
    exact congrArg (phaseAfterTelling c.relay.id _) broken
  · rename_i here
    rw [act_of_refused here (Prod.ext broken rfl)]
    rfl
  · cases broken

include seals in
/-- Whatever happens to a relay and its channels: once it is gone it has closed its output, or one
of its acts broke down, and that is its outcome. -/
theorem run_closes (id : String) (device : τ) (input : ι) (output : ω) (turns : List Turn)
    (gone : ((load id device input output).run turns).relay.phase.isGone = true) :
    shut ((load id device input output).run turns).output ∨
      ((load id device input output).run turns).relay.phase.over? =
          some (.error (.relayCrashed id)) ∧
        ∃ before after, turns = before ++ .act :: after ∧
          ((load id device input output).run before).BreaksDown := by
  have fresh : (load id device input output).relay.phase.isGone = true →
      shut (load id device input output).output := nofun
  rcases foldl_keeps_or (fun c : Course τ ι ω => c.relay.phase.isGone = true → shut c.output)
    (fun c turn => turn = .act ∧ c.BreaksDown) (fun _ turn => next_closes seals turn) turns fresh
    with closed | ⟨before, turn, after, rfl, rfl, broken⟩
  · exact .inl (closed gone)
  · refine .inr ⟨?_, before, after, rfl, broken⟩
    rw [run_append]
    refine over_run ?_ after
    have named := id_run (load id device input output) before
    exact (congrArg Phase.over? (act_breaks broken)).trans (named ▸ rfl)

end Course

end Relay

end Intcode
