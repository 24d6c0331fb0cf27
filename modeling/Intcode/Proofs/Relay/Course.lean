import Intcode.Proofs.Channel.Use
import Intcode.Proofs.Relay.Phase

/-!
# Courses of events around a relay

A relay is started, stopped and joined by others, and others use its two channels, all of that
between any two of its acts. A course is a relay with its channels and a record of what has happened
to them so far: what was fed to the relay, what its device was told and what the output got.
-/

namespace Intcode

namespace Relay

/-- The value that was taken and that the device has not been told. -/
def Phase.untold : Phase → List Word
  | .holding v _ => [v]
  | .ready | .checking | .polling | .tallying | .flushing _ | .answering .. | .closing _
  | .leaving _ | .ended _ => []

theorem Phase.untold_of_over {phase : Phase} {o : Outcome} (finished : phase.over? = some o) :
    phase.untold = [] := by
  cases phase with
  | closing _ | leaving _ | ended _ => rfl
  | _ => cases finished

def Phase.isBusy : Phase → Bool
  | .ready | .ended _ => false
  | .checking | .polling | .tallying | .flushing _ | .holding .. | .answering .. | .closing _
  | .leaving _ => true

/-- The outcome of a relay whose put comes to a stop. A put that waits would not end it. -/
def Outcome.ofStop? (id : String) : Stop → Option Outcome
  | .fault f => some (.error f)
  | .crashed => some (.error (.relayCrashed id))
  | .blocked => none

def phaseAfterTelling (id : String) (left : Option Nat) : Answer → Phase
  | .reply w => .answering w left
  | .silent => resume left
  | .crash => phaseOfStop id .crashed

inductive Turn where
  | start
  | stop
  | join
  | act
  /-- Somebody else uses the input. -/
  | input (use : Use)
  /-- Somebody else uses the output. -/
  | output (use : Use)
  deriving DecidableEq, Repr

namespace Turn

/-- Others use the input to put values and to close it, and take nothing from it. -/
def feeds : Turn → Bool
  | input .take | input .poll => false
  | start | stop | join | act | input (.put _) | input .close | output _ => true

theorem feeds_input {use : Use} (feeding : (input use).feeds = true) :
    use ≠ .take ∧ use ≠ .poll := by
  cases use with
  | take | poll => cases feeding
  | put v | close => exact ⟨nofun, nofun⟩

def isPut : Turn → Bool
  | input (.put _) => true
  | start | stop | join | act | input .take | input .poll | input .close | output _ => false

theorem length_accepted {ι : Type} [Channel ι] (c : ι) (use : Use) :
    (use.accepted c).length ≤ [input use].countP isPut := by
  cases use with
  | take | poll | close => exact Nat.le_refl _
  | put v =>
    rw [Use.accepted]
    split
    · exact Nat.le_refl _
    · exact Nat.zero_le _

end Turn

/-- A relay between its channels, and what has happened. -/
structure Course (τ ι ω : Type) where
  relay : Relay τ
  input : ι
  output : ω
  /-- The values that others have put on the input. -/
  fed : List Word := []
  /-- The values that the device was told. -/
  told : List Word := []
  /-- The replies that the output has accepted. -/
  sent : List Word := []
  /-- The reply that the output has refused, and why. -/
  refused : Option (Word × Stop) := none
  /-- What had been fed when the relay noticed the stop. -/
  noticed : Option (List Word) := none

/-- A join asks for the outcome and changes nothing else. -/
theorem phase_join {τ : Type} (r : Relay τ) :
    r.join.2.phase = r.phase ∧ r.join.2.stopped = r.stopped := by
  obtain ⟨id, device, stopped, interval, phase, joined⟩ := r
  cases joined with
  | some o => exact ⟨rfl, rfl⟩
  | none => cases phase <;> exact ⟨rfl, rfl⟩

theorem start_of_started {τ : Type} {r : Relay τ} (started : r.phase ≠ .ready) : r.start.2 = r := by
  rw [start]
  split
  · rename_i ready
    exact absurd ready started
  · rfl

namespace Course

variable {τ ι ω : Type}

def load (id : String) (device : τ) (input : ι) (output : ω) : Course τ ι ω :=
  { relay := { id, device }, input, output }

def lost (c : Course τ ι ω) : List Word :=
  match c.refused with
  | some (w, _) => [w]
  | none => []

variable [Device τ] [Channel ι] [Channel ω]

def act (c : Course τ ι ω) : Course τ ι ω :=
  let a := c.relay.act c.input c.output
  let after := { c with relay := a.relay, input := a.input, output := a.output }
  match c.relay.phase with
  | .checking => if c.relay.stopped then { after with noticed := some c.fed } else after
  | .holding v _ => { after with told := c.told ++ [v] }
  | .answering w _ =>
    match (Channel.put c.output w).1 with
    | .ok () => { after with sent := c.sent ++ [w] }
    | .error s => { after with refused := some (w, s) }
  | _ => after

def next (c : Course τ ι ω) : Turn → Course τ ι ω
  | .start => { c with relay := c.relay.start.2 }
  | .stop => { c with relay := c.relay.stop }
  | .join => { c with relay := c.relay.join.2 }
  | .act => c.act
  | .input use => { c with input := use.on c.input, fed := c.fed ++ use.accepted c.input }
  | .output use => { c with output := use.on c.output }

def run (c : Course τ ι ω) (turns : List Turn) : Course τ ι ω := turns.foldl next c

def enter (c : Course τ ι ω) (phase : Phase) : Course τ ι ω :=
  { c with relay := { c.relay with phase } }

theorem run_append (c : Course τ ι ω) (before after : List Turn) :
    c.run (before ++ after) = (c.run before).run after :=
  List.foldl_append

variable {c : Course τ ι ω}

theorem act_of_ready (ready : c.relay.phase = .ready) : c.act = c := by
  obtain ⟨⟨id, device, stopped, interval, phase, joined⟩, input, output⟩ := c
  cases ready
  rfl

theorem act_of_ended {o : Outcome} (ended : c.relay.phase = .ended o) : c.act = c := by
  obtain ⟨⟨id, device, stopped, interval, phase, joined⟩, input, output⟩ := c
  cases ended
  rfl

theorem act_of_checking (checking : c.relay.phase = .checking) :
    c.act = if c.relay.stopped then { c.enter .tallying with noticed := some c.fed }
      else c.enter .polling := by
  obtain ⟨⟨id, device, stopped, interval, phase, joined⟩, input, output⟩ := c
  cases checking
  cases stopped <;> rfl

theorem act_of_polling (polling : c.relay.phase = .polling) :
    c.act = { c.enter (phaseAfterPoll c.relay.id (Channel.poll c.input).1) with
      input := (Channel.poll c.input).2 } := by
  obtain ⟨⟨id, device, stopped, interval, phase, joined⟩, input, output⟩ := c
  cases polling
  rfl

theorem act_of_tallying (tallying : c.relay.phase = .tallying) :
    c.act = c.enter (.flushing (Channel.pending c.input)) := by
  obtain ⟨⟨id, device, stopped, interval, phase, joined⟩, input, output⟩ := c
  cases tallying
  rfl

theorem act_of_flushed (flushed : c.relay.phase = .flushing 0) :
    c.act = c.enter (.closing (.ok ())) := by
  obtain ⟨⟨id, device, stopped, interval, phase, joined⟩, input, output⟩ := c
  cases flushed
  rfl

theorem act_of_flushing {left : Nat} (flushing : c.relay.phase = .flushing (left + 1)) :
    c.act = { c.enter (phaseAfterFlush c.relay.id left (Channel.poll c.input).1) with
      input := (Channel.poll c.input).2 } := by
  obtain ⟨⟨id, device, stopped, interval, phase, joined⟩, input, output⟩ := c
  cases flushing
  rfl

theorem act_of_holding {v : Word} {left : Option Nat} (holding : c.relay.phase = .holding v left) :
    c.act =
      let r := Device.respond c.relay.device v
      { c with
        relay :=
          { c.relay with device := r.device, phase := phaseAfterTelling c.relay.id left r.answer }
        output := if r.hangsUp then Channel.close c.output else c.output
        told := c.told ++ [v] } := by
  obtain ⟨⟨id, device, stopped, interval, phase, joined⟩, input, output⟩ := c
  cases holding
  simp only [act, Relay.act]
  cases (Device.respond device v).answer <;> rfl

theorem act_of_accepted {w : Word} {left : Option Nat} {output : ω}
    (answering : c.relay.phase = .answering w left)
    (accepted : Channel.put c.output w = (.ok (), output)) :
    c.act = { c.enter (resume left) with output, sent := c.sent ++ [w] } := by
  obtain ⟨⟨id, device, stopped, interval, phase, joined⟩, input, output⟩ := c
  cases answering
  simp only [act, Relay.act, accepted]
  rfl

theorem act_of_refused {w : Word} {left : Option Nat} {s : Stop} {output : ω}
    (answering : c.relay.phase = .answering w left)
    (refused : Channel.put c.output w = (.error s, output)) :
    c.act = { c.enter (phaseOfStop c.relay.id s) with output, refused := some (w, s) } := by
  obtain ⟨⟨id, device, stopped, interval, phase, joined⟩, input, output⟩ := c
  cases answering
  simp only [act, Relay.act, refused]
  cases s <;> rfl

theorem act_of_closing {o : Outcome} (closing : c.relay.phase = .closing o) :
    c.act = { c.enter (.leaving o) with output := Channel.close c.output } := by
  obtain ⟨⟨id, device, stopped, interval, phase, joined⟩, input, output⟩ := c
  cases closing
  rfl

theorem act_of_leaving {o : Outcome} (leaving : c.relay.phase = .leaving o) :
    c.act = c.enter (.ended o) := by
  obtain ⟨⟨id, device, stopped, interval, phase, joined⟩, input, output⟩ := c
  cases leaving
  rfl

theorem isBusy_stop (id : String) (s : Stop) : (phaseOfStop id s).isBusy = true := by
  cases s <;> rfl

theorem isBusy_resume (left : Option Nat) : (resume left).isBusy = true := by
  cases left <;> rfl

theorem isBusy_poll (id : String) (got : Except Stop (Option Word)) :
    (phaseAfterPoll id got).isBusy = true := by
  unfold phaseAfterPoll
  split <;> first | rfl | exact isBusy_stop _ _

theorem isBusy_flush (id : String) (left : Nat) (got : Except Stop (Option Word)) :
    (phaseAfterFlush id left got).isBusy = true := by
  unfold phaseAfterFlush
  split <;> first | rfl | exact isBusy_stop _ _

theorem isBusy_telling (id : String) (left : Option Nat) (answer : Answer) :
    (phaseAfterTelling id left answer).isBusy = true := by
  cases answer with
  | reply w | crash => rfl
  | silent => exact isBusy_resume left

/-- The record changes nothing in what the relay does. -/
theorem act_eq (c : Course τ ι ω) :
    c.act.relay = (c.relay.act c.input c.output).relay ∧
      c.act.output = (c.relay.act c.input c.output).output := by
  rw [act]
  split
  · split <;> exact ⟨rfl, rfl⟩
  · exact ⟨rfl, rfl⟩
  · split <;> exact ⟨rfl, rfl⟩
  · exact ⟨rfl, rfl⟩

/-- What an act of the relay can change: it may take a value from the input, notice a stop and come
to its end, but neither raises the stop signal nor feeds anything. -/
structure Keeps (c c' : Course τ ι ω) : Prop where
  id : c'.relay.id = c.relay.id
  stopped : c'.relay.stopped = c.relay.stopped
  fed : c'.fed = c.fed
  noticed : c'.noticed = c.noticed ∨ c'.noticed = some c.fed
  input : c'.input = c.input ∨ c'.input = (Channel.poll c.input).2
  phase : c'.relay.phase.isBusy = true ∨ c'.relay.phase = c.relay.phase ∨
    ∃ o, c.relay.phase = .leaving o ∧ c'.relay.phase = .ended o

theorem act_keeps (c : Course τ ι ω) : Keeps c c.act := by
  cases here : c.relay.phase with
  | ready =>
    rw [act_of_ready here]
    exact ⟨rfl, rfl, rfl, .inl rfl, .inl rfl, .inr (.inl rfl)⟩
  | checking =>
    rw [act_of_checking here]
    split
    · exact ⟨rfl, rfl, rfl, .inr rfl, .inl rfl, .inl rfl⟩
    · exact ⟨rfl, rfl, rfl, .inl rfl, .inl rfl, .inl rfl⟩
  | polling =>
    rw [act_of_polling here]
    exact ⟨rfl, rfl, rfl, .inl rfl, .inr rfl, .inl (isBusy_poll _ _)⟩
  | tallying =>
    rw [act_of_tallying here]
    exact ⟨rfl, rfl, rfl, .inl rfl, .inl rfl, .inl rfl⟩
  | flushing left =>
    cases left with
    | zero =>
      rw [act_of_flushed here]
      exact ⟨rfl, rfl, rfl, .inl rfl, .inl rfl, .inl rfl⟩
    | succ left =>
      rw [act_of_flushing here]
      exact ⟨rfl, rfl, rfl, .inl rfl, .inr rfl, .inl (isBusy_flush _ _ _)⟩
  | holding v left =>
    rw [act_of_holding here]
    exact ⟨rfl, rfl, rfl, .inl rfl, .inl rfl, .inl (isBusy_telling _ _ _)⟩
  | answering w left =>
    cases put : Channel.put c.output w with
    | mk accepted output =>
      cases accepted with
      | ok u =>
        rw [act_of_accepted here put]
        exact ⟨rfl, rfl, rfl, .inl rfl, .inl rfl, .inl (isBusy_resume left)⟩
      | error s =>
        rw [act_of_refused here put]
        exact ⟨rfl, rfl, rfl, .inl rfl, .inl rfl, .inl (isBusy_stop _ s)⟩
  | closing o =>
    rw [act_of_closing here]
    exact ⟨rfl, rfl, rfl, .inl rfl, .inl rfl, .inl rfl⟩
  | leaving o =>
    rw [act_of_leaving here]
    exact ⟨rfl, rfl, rfl, .inl rfl, .inl rfl, .inr (.inr ⟨o, here, rfl⟩)⟩
  | ended o =>
    rw [act_of_ended here]
    exact ⟨rfl, rfl, rfl, .inl rfl, .inl rfl, .inr (.inl rfl)⟩

theorem started_act (started : c.relay.phase ≠ .ready) : c.act.relay.phase ≠ .ready := by
  intro ready
  rcases c.act_keeps.phase with busy | same | ⟨o, -, ended⟩
  · rw [ready] at busy
    cases busy
  · exact started (same.symm.trans ready)
  · cases ready.symm.trans ended

theorem id_next (c : Course τ ι ω) (turn : Turn) : (c.next turn).relay.id = c.relay.id := by
  cases turn with
  | start =>
    obtain ⟨⟨id, device, stopped, interval, phase, joined⟩, input, output⟩ := c
    cases phase <;> rfl
  | join =>
    obtain ⟨⟨id, device, stopped, interval, phase, joined⟩, input, output⟩ := c
    cases joined with
    | some o => rfl
    | none => cases phase <;> rfl
  | act => exact c.act_keeps.id
  | stop | input use | output use => rfl

theorem id_run (c : Course τ ι ω) (turns : List Turn) : (c.run turns).relay.id = c.relay.id := by
  induction turns generalizing c with
  | nil => rfl
  | cons t turns ih => exact (ih (c.next t)).trans (id_next c t)

/-- A loop that is over has come to its outcome for good. -/
theorem over_next {o : Outcome} (finished : c.relay.phase.over? = some o) (turn : Turn) :
    (c.next turn).relay.phase.over? = some o := by
  cases turn with
  | start =>
    have started : c.relay.phase ≠ .ready := by
      intro ready
      rw [ready] at finished
      cases finished
    rw [next, start_of_started started]
    exact finished
  | join => exact (congrArg Phase.over? (phase_join c.relay).1).trans finished
  | act =>
    cases here : c.relay.phase with
    | closing o' =>
      rw [next, act_of_closing here]
      exact (congrArg Phase.over? here).symm.trans finished
    | leaving o' =>
      rw [next, act_of_leaving here]
      exact (congrArg Phase.over? here).symm.trans finished
    | ended o' =>
      rw [next, act_of_ended here]
      exact finished
    | _ =>
      rw [here] at finished
      cases finished
  | stop | input use | output use => exact finished

theorem over_run {o : Outcome} (finished : c.relay.phase.over? = some o) (turns : List Turn) :
    (c.run turns).relay.phase.over? = some o := by
  induction turns generalizing c with
  | nil => exact finished
  | cons t turns ih => exact ih (over_next finished t)

theorem ended_next {o : Outcome} (ended : c.relay.phase = .ended o) (turn : Turn) :
    (c.next turn).relay.phase = .ended o := by
  cases turn with
  | start =>
    have started : c.relay.phase ≠ .ready := by
      intro ready
      cases ended.symm.trans ready
    rw [Course.next, start_of_started started]
    exact ended
  | join => exact (phase_join c.relay).1.trans ended
  | act =>
    rw [Course.next, act_of_ended ended]
    exact ended
  | stop | input use | output use => exact ended

theorem ended_run {o : Outcome} (ended : c.relay.phase = .ended o) (turns : List Turn) :
    (c.run turns).relay.phase = .ended o := by
  induction turns generalizing c with
  | nil => exact ended
  | cons t turns ih => exact ih (ended_next ended t)

end Course

end Relay

end Intcode
