import Intcode.Proofs.Machine.Among
import Intcode.Proofs.Processor.Closing

/-!
# The one run of a processor

A processor makes one run of its machine, from its start on, among the uses that others make of its
channels. Its outcome is what that run came to, unless the processor panics: a step of its machine
breaks down, or the output does when it is closed after the run.
-/

namespace Intcode

namespace Processor

def Turn.starts {ν : Type} : Turn ν → Bool
  | start | join => true
  | listen _ | act | input _ | output _ => false

def Turn.moments {ν : Type} (started : Bool) : Turn ν → List Moment
  | act => if started then [.step] else []
  | input use => [.input use]
  | output use => [.output use]
  | start | join | listen _ => []

def Turn.allMoments {ν : Type} : Bool → List (Turn ν) → List Moment
  | _, [] => []
  | started, turn :: turns => turn.moments started ++ allMoments (started || turn.starts) turns

def Turn.isUse {ν : Type} : Turn ν → Bool
  | input _ | output _ => true
  | start | join | listen _ | act => false

def Turn.isListen {ν : Type} : Turn ν → Bool
  | listen _ => true
  | start | join | act | input _ | output _ => false

def Turn.isAct {ν : Type} : Turn ν → Bool
  | act => true
  | start | join | listen _ | input _ | output _ => false

/-- If nobody else uses the channels, the machine only makes steps. -/
theorem Turn.allMoments_eq {ν : Type} {turns : List (Turn ν)}
    (alone : ∀ turn ∈ turns, turn.isUse = false) (started : Bool) :
    ∃ n, allMoments started turns = .replicate n .step := by
  refine ⟨_, List.eq_replicate_iff.mpr ⟨rfl, ?_⟩⟩
  induction turns generalizing started with
  | nil => nofun
  | cons turn turns ih =>
    intro moment mem
    rcases List.mem_append.mp mem with now | later
    · have quiet := alone turn List.mem_cons_self
      cases turn with
      | act =>
        cases started with
        | true => exact List.mem_singleton.mp now
        | false => cases now
      | input use | output use => cases quiet
      | start | join | listen l => cases now
    · exact ih (fun t h => alone t (List.mem_cons_of_mem _ h)) _ moment later

theorem started_next {ν ι ω : Type} [Channel ι] [Channel ω] {c : Course ν ι ω}
    (started : c.processor.phase ≠ .ready) (turn : Turn ν) :
    (c.next turn).processor.phase ≠ .ready := by
  cases turn with
  | act => exact started_act started c.input c.output
  | input use | output use => exact started
  | start | join | listen l =>
    obtain ⟨⟨id, machine, trace, phase, listeners, fired, joined⟩, input, output⟩ := c
    cases phase with
    | ready => exact absurd rfl started
    | _ => cases joined <;> exact started

/-- The answer that a join has given is the outcome of a processor that has ended. -/
def Truthful {ν : Type} (p : Processor ν) : Prop := ∀ o, p.joined = some o → p.phase = .ended o

theorem over?_eq_none_iff {ν : Type} {phase : Phase ν} :
    phase.over? = none ↔ phase = .ready ∨ phase = .running := by
  cases phase <;> simp [Phase.over?]

namespace Course

variable {ν ι ω : Type} [Channel ι] [Channel ω] {c : Course ν ι ω} {fragile : ω → Bool}

/-- An act of a processor whose output may break down when it is closed, and the processor with
it. -/
def liveAct (fragile : ω → Bool) (c : Course ν ι ω) : Course ν ι ω :=
  match c.processor.phase with
  | .closing _ =>
    if fragile c.output then
      { c with
        processor := { c.processor with
          phase := .reporting (.error (.processorCrashed c.processor.id)) } }
    else c.act
  | _ => c.act

def liveNext (fragile : ω → Bool) (c : Course ν ι ω) : Turn ν → Course ν ι ω
  | .act => c.liveAct fragile
  | turn => c.next turn

def live (fragile : ω → Bool) (c : Course ν ι ω) (turns : List (Turn ν)) : Course ν ι ω :=
  turns.foldl (liveNext fragile) c

/-- The next act of the processor breaks down: a step of its machine does, or the closing of its
output. -/
def Panics (fragile : ω → Bool) (c : Course ν ι ω) : Prop :=
  c.BreaksDown ∨ (∃ o, c.processor.phase = .closing o) ∧ fragile c.output = true

/-- The processor has panicked in one of these turns. -/
def Panicked (fragile : ω → Bool) (c : Course ν ι ω) (turns : List (Turn ν)) : Prop :=
  ∃ before after, turns = before ++ .act :: after ∧ (c.live fragile before).Panics fragile

/-- The next act but for a breakdown of the output when it is closed. -/
theorem liveAct_cases (fragile : ω → Bool) (c : Course ν ι ω) :
    c.liveAct fragile = c.act ∨
      (∃ o, c.processor.phase = .closing o) ∧ fragile c.output = true ∧
        c.liveAct fragile = { c with
          processor := { c.processor with
            phase := .reporting (.error (.processorCrashed c.processor.id)) } } := by
  unfold liveAct
  split
  · rename_i o closing
    split
    · rename_i breaks
      exact .inr ⟨⟨o, closing⟩, breaks, rfl⟩
    · exact .inl rfl
  · exact .inl rfl

theorem live_append (c : Course ν ι ω) (early late : List (Turn ν)) :
    c.live fragile (early ++ late) = (c.live fragile early).live fragile late :=
  List.foldl_append

/-- What the plain turns and a breakdown at the closing of the output keep, every turn keeps. -/
theorem liveNext_keeps {P : Course ν ι ω → Prop} (turn : Turn ν) (plain : P (c.next turn))
    (breaking : ∀ o, c.processor.phase = .closing o → P { c with
      processor := { c.processor with
        phase := .reporting (.error (.processorCrashed c.processor.id)) } }) :
    P (c.liveNext fragile turn) := by
  cases turn with
  | act =>
    rcases liveAct_cases fragile c with same | ⟨⟨o, closing⟩, -, broken⟩
    · rw [liveNext, same]
      exact plain
    · rw [liveNext, broken]
      exact breaking o closing
  | _ => exact plain

theorem live_keeps {P : Course ν ι ω → Prop}
    (step : ∀ c turn, P c → P (c.liveNext fragile turn)) (now : P c) (turns : List (Turn ν)) :
    P (c.live fragile turns) := by
  induction turns generalizing c with
  | nil => exact now
  | cons t turns ih => exact ih (step c t now)

theorem started_live (fragile : ω → Bool) (started : c.processor.phase ≠ .ready)
    (turns : List (Turn ν)) : (c.live fragile turns).processor.phase ≠ .ready :=
  live_keeps (P := fun c => c.processor.phase ≠ .ready)
    (fun _ turn started => liveNext_keeps (P := fun c => c.processor.phase ≠ .ready) turn
      (started_next started turn) fun _ _ => nofun) started turns

theorem id_live (turns : List (Turn ν)) : (c.live fragile turns).processor.id = c.processor.id :=
  live_keeps (P := fun d => d.processor.id = c.processor.id)
    (fun d turn same => liveNext_keeps (P := fun d => d.processor.id = c.processor.id) turn
      ((id_next d turn).trans same) fun _ _ => same) rfl turns

theorem truthful_next (truthful : c.processor.Truthful) (turn : Turn ν) :
    (c.next turn).processor.Truthful := by
  cases turn with
  | act =>
    intro o answered
    obtain ⟨⟨id, machine, trace, phase, listeners, fired, joined⟩, input, output⟩ := c
    cases phase with
    | running => cases truthful o answered
    | notifying o waiting => cases waiting <;> cases truthful _ answered
    | ready | closing o | reporting o | ending o => cases truthful _ answered
    | ended o' => exact truthful o answered
  | input use | output use => exact truthful
  | join =>
    obtain ⟨⟨id, machine, trace, phase, listeners, fired, joined⟩, input, output⟩ := c
    cases joined with
    | some o => exact truthful
    | none =>
      cases phase with
      | ended o =>
        intro o' answered
        cases answered
        rfl
      | _ => nofun
  | start | listen l =>
    obtain ⟨⟨id, machine, trace, phase, listeners, fired, joined⟩, input, output⟩ := c
    intro o answered
    cases phase with
    | ended o' => exact truthful o answered
    | _ => cases truthful o answered

theorem truthful_live (truthful : c.processor.Truthful) (turns : List (Turn ν)) :
    (c.live fragile turns).processor.Truthful := by
  refine live_keeps (P := fun c => c.processor.Truthful) (fun c turn truthful => ?_) truthful turns
  refine liveNext_keeps (P := fun c => c.processor.Truthful) turn
    (truthful_next truthful turn) ?_
  intro o closing o' answered
  cases closing.symm.trans (truthful o' answered)

/-- A run that is over stays over. -/
theorem over_liveNext (isOver : c.processor.over? ≠ none) (turn : Turn ν) :
    (c.liveNext fragile turn).processor.over? ≠ none := by
  refine liveNext_keeps (P := fun d => d.processor.over? ≠ none) turn ?_ fun _ _ => nofun
  obtain ⟨o, here⟩ := Option.ne_none_iff_exists'.mp isOver
  rw [over_next here turn]
  nofun

theorem ended_live {o : Outcome} (ended : c.processor.phase = .ended o) (turns : List (Turn ν)) :
    (c.live fragile turns).processor.phase = .ended o := by
  refine live_keeps (P := fun c => c.processor.phase = .ended o) (fun c turn ended => ?_) ended
    turns
  refine liveNext_keeps (P := fun c => c.processor.phase = .ended o) turn ?_ ?_
  · obtain ⟨⟨id, machine, trace, phase, listeners, fired, joined⟩, input, output⟩ := c
    obtain rfl : phase = .ended o := ended
    cases turn with
    | join => cases joined <;> rfl
    | _ => rfl
  · intro o' closing
    cases closing.symm.trans ended

/-- A processor that is done with its output has come to its outcome for good. -/
def Settled (o : Outcome) (c : Course ν ι ω) : Prop :=
  c.processor.phase.isGone = true ∧ c.processor.over? = some o

theorem gone_next (gone : c.processor.phase.isGone = true) (turn : Turn ν) :
    (c.next turn).processor.phase.isGone = true := by
  obtain ⟨⟨id, machine, trace, phase, listeners, fired, joined⟩, input, output⟩ := c
  cases turn with
  | act =>
    cases phase with
    | ready | running | closing o => cases gone
    | notifying o waiting => cases waiting <;> rfl
    | reporting o | ending o | ended o => rfl
  | input use | output use => exact gone
  | start | join | listen l => cases phase <;> cases joined <;> exact gone

theorem Settled.live {o : Outcome} (settled : c.Settled o) (turns : List (Turn ν)) :
    (c.live fragile turns).Settled o := by
  refine live_keeps (fun c turn settled => ?_) settled turns
  refine liveNext_keeps turn ⟨gone_next settled.1 turn, over_next settled.2 turn⟩ ?_
  intro o' closing
  have gone := settled.1
  rw [closing] at gone
  cases gone

/-- A processor that panics has come to that outcome. -/
theorem Panics.settles (panics : c.Panics fragile) :
    (c.liveAct fragile).Settled (.error (.processorCrashed c.processor.id)) := by
  rcases panics with broken | ⟨⟨o, closing⟩, breaks⟩
  · have running := broken.1
    have plain : c.liveAct fragile = c.act := by
      rw [liveAct, running]
    rw [plain]
    refine ⟨?_, act_breaks broken⟩
    rw [act, act_of_running running]
    show (phaseAfter (ν := ν) c.processor.id _ _).isGone = true
    rw [broken.2]
    rfl
  · rw [liveAct, closing]
    simp only [breaks, if_true]
    exact ⟨rfl, rfl⟩

theorem Panicked.settled {turns : List (Turn ν)} (panicked : c.Panicked fragile turns) :
    (c.live fragile turns).Settled (.error (.processorCrashed c.processor.id)) := by
  obtain ⟨before, after, rfl, panics⟩ := panicked
  have settled := panics.settles
  rw [id_live] at settled
  rw [live_append]
  exact settled.live after

structure Follows (c : Course ν ι ω) (run : Option (Except Stop HaltState) × Rig ι ω) : Prop where
  machine : c.processor.machine = run.2.machine
  trace : c.processor.trace = run.2.trace
  input : c.input = run.2.input
  /-- The closing of the output is no part of the run. -/
  output : c.processor.phase.isGone = false → c.output = run.2.output
  unended : c.processor.over? = none ↔ run.1 = none

/-- The outcome of a course is that of the run, and the run has not broken down. -/
structure Agrees (c : Course ν ι ω) (run : Option (Except Stop HaltState) × Rig ι ω) : Prop where
  outcome : c.processor.over?.map some = run.1.map (Outcome.ofEnd? c.processor.id)
  calm : run.1 ≠ some (.error .crashed)

variable {run : Option (Except Stop HaltState) × Rig ι ω}

omit [Channel ι] [Channel ω] in
theorem Follows.rig_eq (follows : c.Follows run) (running : c.processor.phase = .running) :
    (⟨c.processor.machine, c.input, c.output, c.processor.trace⟩ : Rig ι ω) = run.2 := by
  have there := follows.output (by rw [running]; rfl)
  rw [follows.machine, follows.trace, follows.input, there]

theorem over_iff_of_outcome {id : String} {o : Option Outcome}
    {e : Option (Except Stop HaltState)} (same : o.map some = e.map (Outcome.ofEnd? id)) :
    o = none ↔ e = none := by
  rw [← Option.map_eq_none_iff (f := some), same, Option.map_eq_none_iff]

/-- A step that waits leaves the processor running, and every other is one of the run. -/
theorem over?_stepped_unlessBlocked (p : Processor ν) (result : Except Stop Progress) (m : Machine)
    (trace : Array Record) :
    (p.stepped result m trace).over?.map some =
      (unlessBlocked (endOf m result)).map (Outcome.ofEnd? p.id) := by
  by_cases blocked : result = .error .blocked
  · subst blocked
    rfl
  · rw [over?_stepped p m trace blocked, unlessBlocked_of_ne]
    exact mt endOf_eq_blocked_iff.mp blocked

/-- An act of a running processor is a step of the run. -/
theorem Follows.step (follows : c.Follows run) (running : c.processor.phase = .running) :
    c.act.Follows (Rig.pass run .step) ∧
      c.act.processor.over?.map some =
        (Rig.pass run .step).1.map (Outcome.ofEnd? c.processor.id) := by
  have going : run.1 = none := follows.unended.mp (over?_of_running running)
  have same := follows.rig_eq running
  obtain ⟨e, r⟩ := run
  obtain rfl : e = none := going
  obtain rfl := same
  rw [act, act_of_running running, Rig.pass]
  have outcome := over?_stepped_unlessBlocked c.processor
    (Rig.step ⟨c.processor.machine, c.input, c.output, c.processor.trace⟩).result
    (Rig.step ⟨c.processor.machine, c.input, c.output, c.processor.trace⟩).rig.machine
    (Rig.step ⟨c.processor.machine, c.input, c.output, c.processor.trace⟩).rig.trace
  exact ⟨⟨rfl, rfl, rfl, fun _ => rfl, over_iff_of_outcome outcome⟩, outcome⟩

omit [Channel ι] [Channel ω] in
/-- A turn that is nothing to the machine changes nothing that the run is about. -/
theorem Follows.of_same {d : Course ν ι ω} (follows : c.Follows run)
    (machine : d.processor.machine = c.processor.machine)
    (trace : d.processor.trace = c.processor.trace) (input : d.input = c.input)
    (output : d.processor.phase.isGone = false →
      c.processor.phase.isGone = false ∧ d.output = c.output)
    (unended : d.processor.over? = none ↔ c.processor.over? = none) : d.Follows run where
  machine := machine.trans follows.machine
  trace := trace.trans follows.trace
  input := input.trans follows.input
  output there := (output there).2.trans (follows.output (output there).1)
  unended := unended.trans follows.unended

/-- An act of a processor that does not run is nothing to the machine. -/
theorem Follows.rest (follows : c.Follows run) (resting : c.processor.phase ≠ .running) :
    c.act.Follows run := by
  have rests := act_rests resting c.input c.output
  refine follows.of_same rests.machine ?_ rests.input ?_ (by rw [act, rests.outcome])
  · obtain ⟨⟨id, machine, trace, phase, listeners, fired, joined⟩, input, output⟩ := c
    cases phase with
    | running => exact absurd rfl resting
    | notifying o waiting => cases waiting <;> rfl
    | _ => rfl
  · obtain ⟨⟨id, machine, trace, phase, listeners, fired, joined⟩, input, output⟩ := c
    cases phase with
    | running => exact absurd rfl resting
    | ready => exact fun there => ⟨there, rfl⟩
    | notifying o waiting => cases waiting <;> exact fun there => Bool.noConfusion there
    | closing o | reporting o | ending o | ended o => exact fun there => Bool.noConfusion there

/-- A run that breaks down with a step has broken down in an act of the processor. -/
theorem Follows.breaksDown (follows : c.Follows run) (running : c.processor.phase = .running)
    (broken : (Rig.pass run .step).1 = some (.error .crashed)) : c.BreaksDown := by
  have going : run.1 = none := follows.unended.mp (over?_of_running running)
  refine ⟨running, ?_⟩
  rw [follows.rig_eq running]
  obtain ⟨e, r⟩ := run
  obtain rfl : e = none := going
  rw [Rig.pass] at broken
  cases result : r.step.result with
  | ok progress =>
    rw [result] at broken
    cases progress <;> cases broken
  | error s =>
    rw [result] at broken
    cases s <;> cases broken
    rfl

/-- After a turn the course follows the run as it then is, and if the two have agreed so far they
still do, unless the turn was a panic. -/
def Upholds (fragile : ω → Bool) (c : Course ν ι ω) (turn : Turn ν)
    (run run' : Option (Except Stop HaltState) × Rig ι ω) : Prop :=
  (c.liveNext fragile turn).Follows run' ∧
    (c.Agrees run → (c.liveNext fragile turn).Agrees run' ∨ turn = .act ∧ c.Panics fragile)

/-- A step that breaks down is where the run of the machine and the processor part. -/
theorem Follows.act_running (follows : c.Follows run) (running : c.processor.phase = .running) :
    c.Upholds fragile .act run (Rig.pass run .step) := by
  have plain : c.liveNext fragile .act = c.act := by
    rw [liveNext, liveAct, running]
  obtain ⟨follows', outcome⟩ := follows.step running
  rw [Upholds, plain]
  refine ⟨follows', fun agrees => ?_⟩
  by_cases broken : (Rig.pass run .step).1 = some (.error .crashed)
  · exact .inr ⟨rfl, .inl (follows.breaksDown running broken)⟩
  · refine .inl ⟨?_, broken⟩
    rw [outcome, ← id_next c .act]
    rfl

theorem Follows.act_resting (follows : c.Follows run) (resting : c.processor.phase ≠ .running) :
    c.Upholds fragile .act run run := by
  rcases liveAct_cases fragile c with plain | ⟨⟨o, closing⟩, breaks, broken⟩
  · have rests := act_rests resting c.input c.output
    rw [Upholds, liveNext, plain]
    refine ⟨follows.rest resting, fun agrees => .inl ⟨?_, agrees.calm⟩⟩
    show (c.processor.act c.input c.output).processor.over?.map some =
      run.1.map (Outcome.ofEnd? (c.processor.act c.input c.output).processor.id)
    rw [rests.outcome, rests.id]
    exact agrees.outcome
  · rw [Upholds, liveNext, broken]
    refine ⟨follows.of_same rfl rfl rfl nofun ?_, fun _ => .inr ⟨rfl, .inr ⟨⟨o, closing⟩, breaks⟩⟩⟩
    rw [over?, over?, closing]
    simp [Phase.over?]

/-- The calls of others on a processor are nothing to its machine. -/
theorem Follows.call (follows : c.Follows run) {turn : Turn ν}
    (call : turn = .start ∨ turn = .join ∨ ∃ l, turn = .listen l) :
    c.Upholds fragile turn run run := by
  have same : (c.next turn).Follows run ∧
      (c.next turn).processor.over? = c.processor.over? ∧
      (c.next turn).processor.id = c.processor.id := by
    rcases call with rfl | rfl | ⟨l, rfl⟩
    all_goals
      obtain ⟨⟨id, machine, trace, phase, listeners, fired, joined⟩, input, output⟩ := c
      cases phase <;> cases joined <;>
        exact ⟨follows.of_same rfl rfl rfl (fun there => ⟨there, rfl⟩) Iff.rfl, rfl, rfl⟩
  obtain ⟨follows', outcome, id⟩ := same
  have plain : c.liveNext fragile turn = c.next turn := by
    rcases call with rfl | rfl | ⟨l, rfl⟩ <;> rfl
  rw [Upholds, plain]
  refine ⟨follows', fun agrees => .inl ⟨?_, agrees.calm⟩⟩
  rw [outcome, id]
  exact agrees.outcome

theorem Follows.next (follows : c.Follows run) (fragile : ω → Bool) (turn : Turn ν) {started : Bool}
    (here : started = true ↔ c.processor.phase ≠ .ready) :
    c.Upholds fragile turn run ((turn.moments started).foldl Rig.pass run) := by
  cases turn with
  | act =>
    cases started with
    | false =>
      refine follows.act_resting ?_
      intro running
      cases here.mpr (by rw [running]; nofun)
    | true =>
      by_cases running : c.processor.phase = .running
      · exact follows.act_running running
      · have isOver : c.processor.over? ≠ none := by
          intro going
          rcases over?_eq_none_iff.mp going with ready | going
          · exact here.mp rfl ready
          · exact running going
        obtain ⟨e, ended⟩ := Option.ne_none_iff_exists'.mp (mt follows.unended.mpr isOver)
        have stays : Rig.pass run .step = run := by
          obtain ⟨e', r⟩ := run
          obtain rfl : e' = some e := ended
          rfl
        show c.Upholds fragile .act run (Rig.pass run .step)
        rw [stays]
        exact follows.act_resting running
  | input use =>
    refine ⟨⟨follows.machine, follows.trace, ?_, follows.output, follows.unended⟩, fun agrees => ?_⟩
    · exact congrArg (Use.on · use) follows.input
    · exact .inl ⟨agrees.outcome, agrees.calm⟩
  | output use =>
    refine ⟨⟨follows.machine, follows.trace, follows.input, ?_, follows.unended⟩, fun agrees => ?_⟩
    · exact fun there => congrArg (Use.on · use) (follows.output there)
    · exact .inl ⟨agrees.outcome, agrees.calm⟩
  | start => exact follows.call (.inl rfl)
  | join => exact follows.call (.inr (.inl rfl))
  | listen l => exact follows.call (.inr (.inr ⟨l, rfl⟩))

theorem ready_next (truthful : c.processor.Truthful) (ready : c.processor.phase = .ready)
    (turn : Turn ν) :
    turn.starts = true ↔ (c.liveNext fragile turn).processor.phase ≠ .ready := by
  cases turn with
  | act =>
    rw [liveNext, liveAct, ready]
    simp [Turn.starts, act, Processor.act, ready]
  | join =>
    have unjoined : c.processor.joined = none := by
      refine Option.eq_none_iff_forall_ne_some.mpr fun o answered => ?_
      cases ready.symm.trans (truthful o answered)
    simp [Turn.starts, liveNext, next, join, unjoined, ready]
  | start | listen l => simp [Turn.starts, liveNext, next, start, addListener, ready]
  | input use | output use => simp [Turn.starts, liveNext, next, ready]

/-- A processor has been started once a turn has done so. -/
theorem starts_iff {started : Bool} (truthful : c.processor.Truthful) (turn : Turn ν)
    (here : started = true ↔ c.processor.phase ≠ .ready) :
    (started || turn.starts) = true ↔ (c.liveNext fragile turn).processor.phase ≠ .ready := by
  cases started with
  | true =>
    have going := started_live fragile (here.mp rfl) [turn]
    exact ⟨fun _ => going, fun _ => rfl⟩
  | false =>
    have ready : c.processor.phase = .ready := by
      by_contra started
      cases here.mpr started
    exact ready_next truthful ready turn

/-- Whatever happens to a processor and its channels, its course follows the one run of its machine
from the first start on, and has the outcome of that run unless the processor has panicked. -/
theorem Follows.live {started : Bool} (follows : c.Follows run) (fragile : ω → Bool)
    (truthful : c.processor.Truthful)
    (here : started = true ↔ c.processor.phase ≠ .ready) (turns : List (Turn ν)) :
    (c.live fragile turns).Follows ((Turn.allMoments started turns).foldl Rig.pass run) ∧
      (c.Agrees run →
        (c.live fragile turns).Agrees ((Turn.allMoments started turns).foldl Rig.pass run) ∨
        c.Panicked fragile turns) := by
  induction turns generalizing c started run with
  | nil => exact ⟨follows, .inl⟩
  | cons turn turns ih =>
    obtain ⟨first, firstAgrees⟩ := follows.next fragile turn here
    obtain ⟨rest, restAgrees⟩ := ih first (truthful_live truthful [turn])
      (starts_iff truthful turn here)
    rw [Turn.allMoments, List.foldl_append]
    refine ⟨rest, fun agrees => ?_⟩
    rcases firstAgrees agrees with calm | ⟨rfl, panics⟩
    · rcases restAgrees calm with still | ⟨before, after, rfl, panics⟩
      · exact .inl still
      · exact .inr ⟨turn :: before, after, rfl, panics⟩
    · exact .inr ⟨[], turns, rfl, panics⟩

end Course

end Processor

end Intcode
