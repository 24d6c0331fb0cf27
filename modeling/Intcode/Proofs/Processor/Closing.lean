import Intcode.Proofs.Channel.Use
import Intcode.Proofs.Circuit.Linked
import Intcode.Proofs.Schedule

/-!
# Processors close their outputs

A processor is started, joined and listened to by others, and others use its two channels, all of
that between any two of its acts. A processor that has ended has closed its output, however its run
came to an end, unless a step of its machine broke down: a breakdown skips the closing.
-/

namespace Intcode

namespace Processor

theorem started_act {ν ι ω : Type} [Channel ι] [Channel ω] {p : Processor ν}
    (started : p.phase ≠ .ready) (input : ι) (output : ω) :
    (p.act input output).processor.phase ≠ .ready := by
  by_cases running : p.phase = .running
  · rw [act_of_running running]
    show phaseAfter p.id _ _ ≠ .ready
    unfold phaseAfter
    split <;> nofun
  · obtain ⟨id, machine, trace, phase, listeners, fired, joined⟩ := p
    cases phase with
    | ready => exact absurd rfl started
    | running => exact absurd rfl running
    | notifying o waiting => cases waiting <;> nofun
    | closing o | reporting o | ending o | ended o => nofun

/-- A processor that has been started has something to do until it has ended, once its machine
rests. -/
theorem moves_of_resting {ν ι ω : Type} [Channel ι] [Channel ω] {p : Processor ν}
    (started : p.phase ≠ .ready) (resting : p.phase ≠ .running) (unfinished : p.outcome? = none)
    (input : ι) (output : ω) : (p.act input output).event.isMove = true := by
  obtain ⟨id, machine, trace, phase, listeners, fired, joined⟩ := p
  cases phase with
  | ready => exact absurd rfl started
  | running => exact absurd rfl resting
  | notifying o waiting => cases waiting <;> rfl
  | closing o | reporting o | ending o => rfl
  | ended o => cases unfinished

inductive Turn (ν : Type) where
  | start
  | join
  | listen (l : ν)
  | act
  /-- Somebody else uses the input. -/
  | input (use : Use)
  /-- Somebody else uses the output. -/
  | output (use : Use)
  deriving DecidableEq, Repr

structure Course (ν ι ω : Type) where
  processor : Processor ν
  input : ι
  output : ω

namespace Course

variable {ν ι ω : Type}

/-- A processor that nobody has started yet, between two channels. -/
def load (id : String) (p : Program) (debug : Bool) (input : ι) (output : ω) : Course ν ι ω :=
  { processor := Processor.load id p debug, input, output }

variable [Channel ι] [Channel ω]

def act (c : Course ν ι ω) : Course ν ι ω :=
  let a := c.processor.act c.input c.output
  { processor := a.processor, input := a.input, output := a.output }

def next (c : Course ν ι ω) : Turn ν → Course ν ι ω
  | .start => { c with processor := c.processor.start.2 }
  | .join => { c with processor := c.processor.join.2 }
  | .listen l => { c with processor := c.processor.addListener l }
  | .act => c.act
  | .input use => { c with input := use.on c.input }
  | .output use => { c with output := use.on c.output }

def run (c : Course ν ι ω) (turns : List (Turn ν)) : Course ν ι ω := turns.foldl next c

/-- The next step of the machine breaks down, because a channel does or because of a halt at the
last address. -/
def BreaksDown (c : Course ν ι ω) : Prop :=
  c.processor.phase = .running ∧
    (Rig.step ⟨c.processor.machine, c.input, c.output, c.processor.trace⟩).result =
      .error .crashed

variable {c : Course ν ι ω} {shut : ω → Prop} (seals : Channel.Seals shut)

theorem crashed_of_phaseAfter {id : String} {m : Machine} {result : Except Stop Progress}
    (gone : (phaseAfter (ν := ν) id m result).isGone = true) : result = .error .crashed := by
  cases result with
  | ok progress => cases progress <;> cases gone
  | error s =>
    cases s with
    | crashed => rfl
    | fault f | blocked => cases gone

include seals in
/-- A processor that is gone after an act has closed its output, unless the act broke down. -/
theorem act_closes (done : c.processor.phase.isGone = true → shut c.output)
    (gone : c.act.processor.phase.isGone = true) : shut c.act.output ∨ c.BreaksDown := by
  by_cases running : c.processor.phase = .running
  · rw [act, act_of_running running] at gone
    exact .inr ⟨running, crashed_of_phaseAfter gone⟩
  · left
    obtain ⟨⟨id, machine, trace, phase, listeners, fired, joined⟩, input, output⟩ := c
    cases phase with
    | ready => cases gone
    | running => exact absurd rfl running
    | closing o => exact seals.close output
    | reporting o | ending o | ended o => exact done rfl
    | notifying o waiting => cases waiting <;> exact done rfl

include seals in
theorem next_closes (turn : Turn ν) (done : c.processor.phase.isGone = true → shut c.output) :
    ((c.next turn).processor.phase.isGone = true → shut (c.next turn).output) ∨
      turn = .act ∧ c.BreaksDown := by
  cases turn with
  | start =>
    obtain ⟨⟨id, machine, trace, phase, listeners, fired, joined⟩, input, output⟩ := c
    cases phase with
    | ready => exact .inl nofun
    | _ => exact .inl done
  | join =>
    obtain ⟨⟨id, machine, trace, phase, listeners, fired, joined⟩, input, output⟩ := c
    cases joined with
    | some o => exact .inl done
    | none =>
      cases phase with
      | ready => exact .inl nofun
      | _ => exact .inl done
  | listen l =>
    obtain ⟨⟨id, machine, trace, phase, listeners, fired, joined⟩, input, output⟩ := c
    cases phase <;> exact .inl done
  | act =>
    by_cases broken : c.BreaksDown
    · exact .inr ⟨rfl, broken⟩
    · exact .inl fun gone => (act_closes seals done gone).resolve_right broken
  | input use => exact .inl done
  | output use => exact .inl fun gone => seals.use (done gone) use

/-- A run that is over has come to its outcome for good. -/
theorem over_next {o : Outcome} (finished : c.processor.over? = some o) (turn : Turn ν) :
    (c.next turn).processor.over? = some o := by
  cases turn with
  | act =>
    have resting : c.processor.phase ≠ .running := by
      intro running
      cases (over?_of_running running).symm.trans finished
    exact (act_rests resting c.input c.output).outcome.trans finished
  | input use | output use => exact finished
  | start | join | listen l =>
    obtain ⟨⟨id, machine, trace, phase, listeners, fired, joined⟩, input, output⟩ := c
    cases phase <;> cases joined <;> exact finished

theorem over_run {o : Outcome} (finished : c.processor.over? = some o) (turns : List (Turn ν)) :
    (c.run turns).processor.over? = some o := by
  induction turns generalizing c with
  | nil => exact finished
  | cons t turns ih => exact ih (over_next finished t)

theorem id_next (c : Course ν ι ω) (turn : Turn ν) :
    (c.next turn).processor.id = c.processor.id := by
  cases turn with
  | act =>
    by_cases running : c.processor.phase = .running
    · rw [next, act, act_of_running running]
      rfl
    · exact (act_rests running c.input c.output).id
  | input use | output use => rfl
  | start | join | listen l =>
    obtain ⟨⟨id, machine, trace, phase, listeners, fired, joined⟩, input, output⟩ := c
    cases phase <;> cases joined <;> rfl

theorem id_run (c : Course ν ι ω) (turns : List (Turn ν)) :
    (c.run turns).processor.id = c.processor.id := by
  induction turns generalizing c with
  | nil => rfl
  | cons t turns ih => exact (ih (c.next t)).trans (id_next c t)

theorem act_breaks (broken : c.BreaksDown) :
    c.act.processor.over? = some (.error (.processorCrashed c.processor.id)) := by
  obtain ⟨running, crashed⟩ := broken
  rw [act, act_of_running running]
  exact congrArg (fun result => (phaseAfter (ν := ν) c.processor.id _ result).over?) crashed

include seals in
/-- Whatever happens to a processor and its channels: once it is gone it has closed its output, or
one of its steps broke down, and that is its outcome. -/
theorem run_closes (id : String) (p : Program) (debug : Bool) (input : ι) (output : ω)
    (turns : List (Turn ν))
    (gone : ((load id p debug input output).run turns).processor.phase.isGone = true) :
    shut ((load id p debug input output).run turns).output ∨
      ((load id p debug input output).run turns).processor.over? =
          some (.error (.processorCrashed id)) ∧
        ∃ before after, turns = before ++ .act :: after ∧
          ((load id p debug input output).run before).BreaksDown := by
  have fresh : (load (ν := ν) id p debug input output).processor.phase.isGone = true →
      shut (load (ν := ν) id p debug input output).output := nofun
  rcases foldl_keeps_or (fun c : Course ν ι ω => c.processor.phase.isGone = true → shut c.output)
    (fun c turn => turn = .act ∧ c.BreaksDown) (fun _ turn => next_closes seals turn) turns fresh
    with closed | ⟨before, turn, after, rfl, rfl, broken⟩
  · exact .inl (closed gone)
  · refine .inr ⟨?_, before, after, rfl, broken⟩
    have named := id_run (load id p debug input output) before
    have broke := act_breaks (c := (load id p debug input output).run before) broken
    rw [named] at broke
    rw [run, List.foldl_append]
    exact over_run broke after

end Course

end Processor

end Intcode
