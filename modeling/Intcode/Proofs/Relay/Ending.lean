import Intcode.Proofs.Relay.Course

/-!
# The end of a relay

Once the stop signal is raised or the input is closed, a relay that has been started ends by itself.
`effort` bounds the number of acts that it still has to make: each act lowers it, and each value
that others put on the input in the meantime adds four.
-/

namespace Intcode

namespace Relay

/-- How many acts the relay has to make at most before it has ended, with `queued` values on its
input. Before a stop is noticed a value takes four: a check, a poll, an answer and a put. A wait for
an open input that stays empty is followed by one more check. -/
def Phase.effort (queued : Nat) (closed : Bool) : Phase → Nat
  | .ready | .checking => 4 * queued + 5
  | .polling => if closed then 4 * queued + 4 else 4 * queued + 6
  | .tallying => 3 * queued + 4
  | .flushing left => 3 * left + 3
  | .holding _ (some left) => 3 * left + 5
  | .holding _ none => 4 * queued + 7
  | .answering _ (some left) => 3 * left + 4
  | .answering _ none => 4 * queued + 6
  | .closing _ => 2
  | .leaving _ => 1
  | .ended _ => 0

theorem Phase.effort_resume (queued : Nat) (closed : Bool) (v : Word) (left : Option Nat) :
    (resume left).effort queued closed < (Phase.answering v left).effort queued closed := by
  cases left <;> exact Nat.lt_succ_self _

theorem Phase.effort_telling (id : String) (queued : Nat) (closed : Bool) (v : Word)
    (left : Option Nat) (answer : Answer) :
    (phaseAfterTelling id left answer).effort queued closed <
      (Phase.holding v left).effort queued closed := by
  cases answer with
  | reply w => cases left <;> exact Nat.lt_succ_self _
  | silent => cases left <;> exact Nat.lt_succ_of_lt (Nat.lt_succ_self _)
  | crash => cases left <;> exact Nat.succ_lt_succ (Nat.succ_pos _)

theorem Phase.effort_stop {s : Stop} (moving : s ≠ .blocked) (id : String) (queued : Nat)
    (closed : Bool) (w : Word) (left : Option Nat) :
    (phaseOfStop id s).effort queued closed < (Phase.answering w left).effort queued closed := by
  cases s with
  | blocked => exact absurd rfl moving
  | fault f => cases left <;> exact Nat.succ_lt_succ (Nat.succ_lt_succ (Nat.succ_pos _))
  | crashed => cases left <;> exact Nat.succ_lt_succ (Nat.succ_pos _)

/-- The effort grows with the queue, and not by closing the input. -/
theorem Phase.effort_grows (phase : Phase) (queued more : Nat) {closed closed' : Bool}
    (still : closed = true → closed' = true) :
    phase.effort (queued + more) closed' ≤ phase.effort queued closed + 4 * more := by
  cases phase with
  | polling =>
    cases closed <;> cases closed' <;> simp [effort] at still ⊢ <;> omega
  | holding v left | answering v left => cases left <;> simp only [effort] <;> omega
  | _ =>
    simp only [effort]
    omega

theorem Phase.ended_of_effort {phase : Phase} {queued : Nat} {closed : Bool}
    (none : phase.effort queued closed = 0) : ∃ o, phase = .ended o := by
  cases phase with
  | ended o => exact ⟨o, rfl⟩
  | polling => cases closed <;> exact absurd none (Nat.succ_ne_zero _)
  | holding v left | answering v left => cases left <;> exact absurd none (Nat.succ_ne_zero _)
  | _ => exact absurd none (Nat.succ_ne_zero _)

namespace Course

variable {τ ω : Type} [Device τ] [Channel ω]

def effort (c : Course τ Wire ω) : Nat :=
  c.relay.phase.effort c.input.toList.length c.input.closed

/-- The relay has been started and has a reason to end. -/
structure Bound (c : Course τ Wire ω) : Prop where
  started : c.relay.phase ≠ .ready
  reason : c.relay.stopped = true ∨ c.input.closed = true

variable {c : Course τ Wire ω}

/-- A relay that waits has a value to wait for, or else the end of its input or a stop. -/
theorem effort_poll (polling : c.relay.phase = .polling) : c.act.effort < c.effort := by
  rw [act_of_polling polling, effort, effort, polling]
  cases contents : c.input.toList with
  | nil =>
    rw [Wire.poll_of_nil contents]
    cases closed : c.input.closed with
    | true =>
      show 2 < 4 * 0 + 4
      omega
    | false =>
      show 4 * c.input.toList.length + 5 < 4 * 0 + 6
      rw [contents]
      exact Nat.lt_succ_self 5
  | cons v queued =>
    obtain ⟨input, polled, rfl, same⟩ := Wire.poll_of_cons contents
    rw [polled, ← same]
    show 4 * input.toList.length + 7 < Phase.effort (input.toList.length + 1) input.closed .polling
    simp only [Phase.effort]
    split <;> omega

/-- Every act of the relay brings its end nearer. -/
theorem Bound.act (bound : c.Bound)
    (prompt : ∀ (output : ω) w, (Channel.put output w).1 ≠ .error .blocked)
    (unended : ∀ o, c.relay.phase ≠ .ended o) : c.act.effort < c.effort := by
  cases here : c.relay.phase with
  | ready => exact absurd here bound.started
  | checking =>
    rw [act_of_checking here]
    cases stopped : c.relay.stopped with
    | true =>
      show 3 * c.input.toList.length + 4 < c.effort
      rw [effort, here]
      simp only [Phase.effort]
      omega
    | false =>
      have closed : c.input.closed = true := bound.reason.resolve_left (by rw [stopped]; nofun)
      show Phase.effort _ c.input.closed .polling < c.effort
      rw [effort, here, closed]
      exact Nat.lt_succ_self _
  | polling => exact effort_poll here
  | tallying =>
    rw [act_of_tallying here, Wire.pending_eq, effort, effort, here]
    exact Nat.lt_succ_self _
  | flushing left =>
    cases left with
    | zero =>
      rw [act_of_flushed here, effort, effort, here]
      exact Nat.lt_succ_self _
    | succ left =>
      obtain ⟨got, input, polled, same, got⟩ := Wire.poll_or_fault c.input
      rw [act_of_flushing here, polled, effort, effort, here]
      rcases got with rfl | ⟨v?, rfl⟩
      · show 2 < 3 * (left + 1) + 3
        omega
      · cases v? with
        | some v => exact Nat.lt_succ_self (3 * left + 5)
        | none =>
          show 2 < 3 * (left + 1) + 3
          omega
  | holding v left =>
    rw [act_of_holding here, effort, effort, here]
    exact Phase.effort_telling _ _ _ _ _ _
  | answering w left =>
    cases put : Channel.put c.output w with
    | mk accepted output =>
      cases accepted with
      | ok u =>
        rw [act_of_accepted here put, effort, effort, here]
        exact Phase.effort_resume _ _ w left
      | error s =>
        rw [act_of_refused here put, effort, effort, here]
        refine Phase.effort_stop ?_ _ _ _ w left
        rintro rfl
        exact prompt c.output w (congrArg Prod.fst put)
  | closing o =>
    rw [act_of_closing here, effort, effort, here]
    exact Nat.lt_succ_self _
  | leaving o =>
    rw [act_of_leaving here, effort, effort, here]
    exact Nat.lt_succ_self _
  | ended o => exact absurd here (unended o)

/-- A relay that is bound to end stays so, and only values that others put on its input delay it. -/
theorem Bound.next (bound : c.Bound)
    (prompt : ∀ (output : ω) w, (Channel.put output w).1 ≠ .error .blocked)
    (unended : ∀ o, c.relay.phase ≠ .ended o) {turn : Turn} (feeds : turn.feeds = true) :
    (c.next turn).Bound ∧
      (c.next turn).effort + [turn].count .act ≤ c.effort + 4 * [turn].countP Turn.isPut := by
  cases turn with
  | start =>
    rw [Course.next, start_of_started bound.started]
    exact ⟨bound, Nat.le_refl _⟩
  | stop => exact ⟨⟨bound.started, .inl rfl⟩, Nat.le_refl _⟩
  | join =>
    obtain ⟨phase, stopped⟩ := phase_join c.relay
    refine ⟨⟨?_, ?_⟩, ?_⟩
    · exact fun ready => bound.started (phase.symm.trans ready)
    · exact bound.reason.imp_left stopped.trans
    · show Phase.effort _ _ c.relay.join.2.phase ≤ c.effort
      rw [phase]
      exact Nat.le_refl _
  | act =>
    have keeps := c.act_keeps
    refine ⟨⟨started_act bound.started, ?_⟩, bound.act prompt unended⟩
    refine bound.reason.imp keeps.stopped.trans fun closed => ?_
    show c.act.input.closed = true
    rcases keeps.input with same | polled
    · rw [same]
      exact closed
    · rw [polled]
      exact Wire.seals_closed.poll c.input closed
  | input use =>
    obtain ⟨appended, refuses⟩ := Wire.use_feeds c.input (Turn.feeds_input feeds)
    refine ⟨⟨bound.started, bound.reason.imp_right fun closed => (refuses closed).1⟩, ?_⟩
    have grows := c.relay.phase.effort_grows c.input.toList.length (use.accepted c.input).length
      fun closed => (refuses closed).1
    rw [← List.length_append, ← appended] at grows
    have few := Turn.length_accepted c.input use
    exact Nat.le_trans grows (Nat.add_le_add_left (Nat.mul_le_mul_left 4 few) _)
  | output use => exact ⟨⟨bound.started, bound.reason⟩, Nat.le_refl _⟩

/-- After any turns the relay has ended, or it has come nearer to its end by as much as it has
acted. -/
theorem Bound.run (bound : c.Bound)
    (prompt : ∀ (output : ω) w, (Channel.put output w).1 ≠ .error .blocked) {turns : List Turn}
    (feeds : ∀ t ∈ turns, t.feeds = true) :
    (∃ o, (c.run turns).relay.phase = .ended o) ∨
      (c.run turns).effort + turns.count .act ≤ c.effort + 4 * turns.countP Turn.isPut := by
  induction turns generalizing c with
  | nil => exact .inr (Nat.le_refl _)
  | cons t turns ih =>
    by_cases ended : ∃ o, c.relay.phase = .ended o
    · obtain ⟨o, ended⟩ := ended
      exact .inl ⟨o, ended_run ended (t :: turns)⟩
    · obtain ⟨first, others⟩ := List.forall_mem_cons.mp feeds
      obtain ⟨still, nearer⟩ := bound.next prompt (fun o h => ended ⟨o, h⟩) first
      refine (ih still others).imp_right fun near => ?_
      rw [← List.singleton_append, List.count_append, List.countP_append]
      show ((c.next t).run turns).effort + _ ≤ _
      omega

/-- A relay that is bound to end has ended once it has acted often enough, whatever others do. -/
theorem Bound.ends (bound : c.Bound)
    (prompt : ∀ (output : ω) w, (Channel.put output w).1 ≠ .error .blocked) :
    ∃ enough, ∀ turns : List Turn, (∀ t ∈ turns, t.feeds = true) →
      enough + 4 * turns.countP Turn.isPut ≤ turns.count .act →
      ∃ o, (c.run turns).relay.outcome? = some o := by
  refine ⟨c.effort, fun turns feeds often => ?_⟩
  have ended : ∃ o, (c.run turns).relay.phase = .ended o := by
    rcases bound.run prompt feeds with ended | near
    · exact ended
    · have none : (c.run turns).effort = 0 := by omega
      exact Phase.ended_of_effort none
  obtain ⟨o, phase⟩ := ended
  exact ⟨o, by rw [outcome?, phase]⟩

end Course

end Relay

end Intcode
