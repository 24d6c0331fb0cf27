import Intcode.Proofs.Processor.Living

/-!
# The life of a processor

Who owns a processor starts it, joins it, asks for its status and adds listeners to it, in any order
and while the processor acts. It is run once. Its status goes from ready to running and from there
to halted or failed, where it stays, and all joins tell what the run came to.
-/

namespace Intcode

namespace Processor

inductive Status.Goes : Status → Status → Prop
  | stays (s : Status) : Goes s s
  | starts : Goes ready running
  | ends {s : Status} (terminated : s.isTerminated = true) : Goes running s

theorem Status.isTerminated_ofOutcome (o : Outcome) : (Status.ofOutcome o).isTerminated = true := by
  cases o <;> rfl

theorem Status.ofOutcome_eq_halted_iff {o : Outcome} :
    Status.ofOutcome o = .halted ↔ ∃ s, o = .ok s := by
  cases o <;> simp [Status.ofOutcome]

theorem Truthful.unjoined {ν : Type} {p : Processor ν} (truthful : p.Truthful)
    (unfinished : ∀ o, p.phase ≠ .ended o) : p.joined = none :=
  Option.eq_none_iff_forall_ne_some.mpr fun o answered => unfinished o (truthful o answered)

theorem start_of_started {ν : Type} {p : Processor ν} (started : p.phase ≠ .ready) :
    p.start = ([.processorStarted p.id], p) := by
  rw [start]
  split
  · rename_i ready
    exact absurd ready started
  · rfl

theorem phase_of_join {ν : Type} {p : Processor ν} (truthful : p.Truthful) {o : Outcome}
    (answered : p.join.1 = some o) : p.phase = .ended o := by
  obtain ⟨id, machine, trace, phase, listeners, fired, joined⟩ := p
  cases joined with
  | some o' =>
    cases answered
    exact truthful o rfl
  | none =>
    cases phase with
    | ended o' =>
      cases answered
      rfl
    | _ => cases answered

theorem join_of_ended {ν : Type} {p : Processor ν} (truthful : p.Truthful) {o : Outcome}
    (ended : p.phase = .ended o) : p.join.1 = some o := by
  obtain ⟨id, machine, trace, phase, listeners, fired, joined⟩ := p
  obtain rfl : phase = .ended o := ended
  cases joined with
  | some o' =>
    cases truthful o' rfl
    rfl
  | none => rfl

def Phase.isReady {ν : Type} : Phase ν → Bool
  | .ready => true
  | .running | .closing _ | .reporting _ | .ending _ | .notifying .. | .ended _ => false

/-- The number of acts that a run leaves to the processor once it is over: closing the output,
reporting, announcing the termination, notifying the listeners one by one, and ending. -/
def effort {ν : Type} (p : Processor ν) : Nat :=
  match p.phase with
  | .ready | .running | .ended _ => 0
  | .closing _ => p.listeners.length + 4
  | .reporting _ => p.listeners.length + 3
  | .ending _ => p.listeners.length + 2
  | .notifying _ waiting => waiting.length + 1

/-- What the owner of a processor has in hand. A start hands the machine and its channels over to a
thread and keeps the handle of that thread; a join waits for the thread and keeps its outcome. -/
structure Custody where
  /-- The machine and its channels, until they are handed over. -/
  pending : Bool := true
  /-- The handle of the thread, until it has been waited for. -/
  handle : Bool := false
  /-- The outcome that a join has returned. -/
  outcome : Option Outcome := none

namespace Custody

inductive Reply where
  /-- The thread has not come to an end yet. -/
  | waits
  | tells (o : Outcome)
  /-- There is no thread to wait for. -/
  | stranded
  deriving DecidableEq

/-- Hands the machine and its channels over, if the owner still has them. -/
def start (k : Custody) : Custody :=
  if k.pending then { k with pending := false, handle := true } else k

/-- Joins a processor whose thread has come to an end as `thread?` says. -/
def join (id : String) (thread? : Option Outcome) (k : Custody) : Reply × Custody :=
  match k.outcome with
  | some o => (.tells o, k)
  | none =>
    let k := k.start
    if k.handle then
      match thread? with
      | some o => (.tells o, { k with handle := false, outcome := some o })
      | none => (.waits, k)
    else (.stranded, { k with outcome := some (.error (.processorCrashed id)) })

def Reply.ofJoin : Option Outcome → Reply
  | some o => .tells o
  | none => .waits

def ofProcessor {ν : Type} (p : Processor ν) : Custody where
  pending := p.phase.isReady
  handle := !p.phase.isReady && p.joined.isNone
  outcome := p.joined

theorem start_ofProcessor {ν : Type} {p : Processor ν} (truthful : p.Truthful) :
    (ofProcessor p).start = ofProcessor p.start.2 := by
  obtain ⟨id, machine, trace, phase, listeners, fired, joined⟩ := p
  cases phase with
  | ready =>
    obtain rfl : joined = none := truthful.unjoined nofun
    rfl
  | _ => rfl

/-- The owner's join answers as the processor's, and there is always a thread to wait for. -/
theorem join_ofProcessor {ν : Type} (p : Processor ν) :
    (ofProcessor p).join p.id p.outcome? = (.ofJoin p.join.1, ofProcessor p.join.2) := by
  obtain ⟨id, machine, trace, phase, listeners, fired, joined⟩ := p
  cases joined with
  | some o => rfl
  | none => cases phase <;> rfl

end Custody

namespace Course

variable {ν ι ω : Type} [Channel ι] [Channel ω] {c : Course ν ι ω} {fragile : ω → Bool}

def keep (c : Course ν ι ω) (k : Custody) : Turn ν → Custody
  | .start => k.start
  | .join => (k.join c.processor.id c.processor.outcome?).2
  | .listen _ | .act | .input _ | .output _ => k

def custody (fragile : ω → Bool) : Course ν ι ω → Custody → List (Turn ν) → Custody
  | _, k, [] => k
  | c, k, turn :: turns => custody fragile (c.liveNext fragile turn) (c.keep k turn) turns

theorem ofProcessor_stepped {p : Processor ν} (result : Except Stop Progress) (m : Machine)
    (trace : Array Record) :
    Custody.ofProcessor (p.stepped result m trace) = ⟨false, p.joined.isNone, p.joined⟩ := by
  unfold stepped phaseAfter
  split <;> rfl

/-- Only the owner's own calls change what the owner has in hand. -/
theorem ofProcessor_act (c : Course ν ι ω) :
    Custody.ofProcessor (c.liveAct fragile).processor = Custody.ofProcessor c.processor := by
  refine liveNext_keeps (P := fun d => Custody.ofProcessor d.processor = .ofProcessor c.processor)
    .act ?_ fun o closing => ?_
  · by_cases running : c.processor.phase = .running
    · rw [next, act, act_of_running running, ofProcessor_stepped, Custody.ofProcessor, running]
      rfl
    · obtain ⟨⟨id, machine, trace, phase, listeners, fired, joined⟩, input, output⟩ := c
      cases phase with
      | running => exact absurd rfl running
      | notifying o waiting => cases waiting <;> rfl
      | _ => rfl
  · rw [Custody.ofProcessor, Custody.ofProcessor, closing]
    rfl

theorem keep_ofProcessor (fragile : ω → Bool) (truthful : c.processor.Truthful) (turn : Turn ν) :
    c.keep (.ofProcessor c.processor) turn =
      .ofProcessor (c.liveNext fragile turn).processor := by
  cases turn with
  | start => exact Custody.start_ofProcessor truthful
  | join => exact congrArg Prod.snd (Custody.join_ofProcessor c.processor)
  | act => exact (ofProcessor_act c).symm
  | input use | output use => rfl
  | listen l =>
    obtain ⟨⟨id, machine, trace, phase, listeners, fired, joined⟩, input, output⟩ := c
    cases phase <;> rfl

theorem custody_eq (truthful : c.processor.Truthful) (turns : List (Turn ν)) :
    custody fragile c (.ofProcessor c.processor) turns =
      .ofProcessor (c.live fragile turns).processor := by
  induction turns generalizing c with
  | nil => rfl
  | cons turn turns ih =>
    rw [custody, keep_ofProcessor fragile truthful turn]
    exact ih (truthful_live truthful [turn])

theorem status_stepped {p : Processor ν} (result : Except Stop Progress) (m : Machine)
    (trace : Array Record) : (p.stepped result m trace).status = .running := by
  show status { p with machine := m, trace, phase := phaseAfter p.id m result } = .running
  unfold phaseAfter
  split <;> rfl

theorem goes_next (c : Course ν ι ω) (turn : Turn ν) :
    Status.Goes c.processor.status (c.next turn).processor.status := by
  cases turn with
  | act =>
    by_cases running : c.processor.phase = .running
    · rw [next, act, act_of_running running]
      dsimp only
      rw [status_stepped, status, running]
      exact .stays .running
    · obtain ⟨⟨id, machine, trace, phase, listeners, fired, joined⟩, input, output⟩ := c
      cases phase with
      | running => exact absurd rfl running
      | reporting o => exact .ends (Status.isTerminated_ofOutcome o)
      | notifying o waiting => cases waiting <;> exact .stays _
      | ready | closing o | ending o | ended o => exact .stays _
  | input use | output use => exact .stays _
  | start =>
    obtain ⟨⟨id, machine, trace, phase, listeners, fired, joined⟩, input, output⟩ := c
    cases phase with
    | ready => exact .starts
    | _ => exact .stays _
  | join =>
    obtain ⟨⟨id, machine, trace, phase, listeners, fired, joined⟩, input, output⟩ := c
    cases joined with
    | some o => exact .stays _
    | none =>
      cases phase with
      | ready => exact .starts
      | _ => exact .stays _
  | listen l =>
    obtain ⟨⟨id, machine, trace, phase, listeners, fired, joined⟩, input, output⟩ := c
    cases phase <;> exact .stays _

theorem goes_liveNext (c : Course ν ι ω) (turn : Turn ν) :
    Status.Goes c.processor.status (c.liveNext fragile turn).processor.status := by
  refine liveNext_keeps (P := fun d => Status.Goes c.processor.status d.processor.status) turn
    (goes_next c turn) fun o closing => ?_
  rw [status, closing]
  exact .stays .running

omit [Channel ι] [Channel ω] in
theorem ended_of_effort (isOver : c.processor.over? ≠ none) (done : c.processor.effort = 0) :
    ∃ o, c.processor.phase = .ended o := by
  obtain ⟨⟨id, machine, trace, phase, listeners, fired, joined⟩, input, output⟩ := c
  cases phase with
  | ready | running => exact absurd rfl isOver
  | ended o => exact ⟨o, rfl⟩
  | closing o | reporting o | ending o | notifying o waiting => cases done

/-- Each act does some of the work, and only a new listener adds to it. -/
theorem effort_next (fragile : ω → Bool) (isOver : c.processor.over? ≠ none)
    (unfinished : ∀ o, c.processor.phase ≠ .ended o) (turn : Turn ν) :
    (c.liveNext fragile turn).processor.effort + [turn].countP Turn.isAct ≤
      c.processor.effort + [turn].countP Turn.isListen := by
  refine liveNext_keeps (P := fun d => d.processor.effort + [turn].countP Turn.isAct ≤
    c.processor.effort + [turn].countP Turn.isListen) turn ?_ ?_
  · obtain ⟨⟨id, machine, trace, phase, listeners, fired, joined⟩, input, output⟩ := c
    cases turn with
    | act =>
      cases phase with
      | ready | running => exact absurd rfl isOver
      | notifying o waiting => cases waiting <;> exact le_rfl
      | closing o | reporting o | ending o => exact le_rfl
      | ended o => exact absurd rfl (unfinished o)
    | listen l =>
      cases phase with
      | ready | running => exact absurd rfl isOver
      | closing o | reporting o | ending o =>
        simp [next, addListener, effort, Turn.isAct, Turn.isListen]
      | notifying o waiting => exact Nat.le_succ _
      | ended o => exact Nat.le_succ _
    | start | join => cases phase <;> cases joined <;> exact le_rfl
    | input use | output use => exact le_rfl
  · intro o closing
    have one : [turn].countP Turn.isAct ≤ 1 := List.countP_le_length
    have now : c.processor.effort = c.processor.listeners.length + 4 := by
      rw [effort, closing]
    rw [now]
    show c.processor.listeners.length + 3 + _ ≤ _
    omega

/-- Once its run is over a processor ends within as many of its own acts as it has work left, and
one more for each listener that is still added. -/
theorem ends (fragile : ω → Bool) (isOver : c.processor.over? ≠ none) {turns : List (Turn ν)}
    (enough : c.processor.effort + turns.countP Turn.isListen ≤ turns.countP Turn.isAct) :
    ∃ o, (c.live fragile turns).processor.phase = .ended o := by
  induction turns generalizing c with
  | nil => exact ended_of_effort isOver (Nat.le_zero.mp enough)
  | cons turn turns ih =>
    by_cases finished : ∃ o, c.processor.phase = .ended o
    · obtain ⟨o, ended⟩ := finished
      exact ⟨o, ended_live ended (turn :: turns)⟩
    · have less := effort_next fragile isOver (not_exists.mp finished) turn
      rw [← List.singleton_append, List.countP_append, List.countP_append] at enough
      exact ih (over_liveNext isOver turn) (by omega)

/-- The life of a processor so far: its machine has made `run`, and it has `panicked` or not. -/
structure Lives (fragile : ω → Bool) (id : String)
    (run : Option (Except Stop HaltState) × Rig ι ω) (panicked : Prop) (c : Course ν ι ω) :
    Prop where
  /-- Whatever the machine has done, it has done in that run. -/
  machine : c.processor.machine = run.2.machine
  trace : c.processor.trace = run.2.trace
  input : c.input = run.2.input
  /-- A second start changes nothing. -/
  once : c.processor.phase ≠ .ready →
    c.next .start = c ∧ c.processor.start.1 = [.processorStarted id]
  status : ∀ turn, Status.Goes c.processor.status (c.liveNext fragile turn).processor.status
  /-- A join starts the processor if nobody has. -/
  starts : c.processor.phase = .ready →
    c.next .join = c.next .start ∧ (c.next .start).processor.phase = .running
  /-- Once the run is over, a join answers after finitely many acts. -/
  answers : run.1 ≠ none → ∀ later : List (Turn ν),
    c.processor.effort + later.countP Turn.isListen ≤ later.countP Turn.isAct →
      (c.live fragile later).processor.join.1 ≠ none
  /-- All joins answer the same. -/
  same : ∀ o, c.processor.join.1 = some o →
    ∀ later, (c.live fragile later).processor.join.1 = some o
  final : ∀ o, c.processor.join.1 = some o →
    c.processor.status = .ofOutcome o ∧ (c.processor.status = .halted ↔ ∃ s, o = .ok s)
  /-- The outcome is that of the run, unless the processor has panicked. -/
  outcome : ∀ o, c.processor.join.1 = some o →
    panicked ∧ o = .error (.processorCrashed id) ∨
      ¬ panicked ∧ ∃ e, run.1 = some e ∧ Outcome.ofEnd? id e = some o
  /-- No other outcome looks like a panic, unless a channel reports one. -/
  panic : Channel.Modest ι → Channel.Modest ω → ∀ o, c.processor.join.1 = some o →
    (o = .error (.processorCrashed id) ↔ panicked)

/-- An outcome that looks like a panic is that of a run that broke down or failed with it. -/
theorem crashed_of_ofEnd {id : String} {e : Except Stop HaltState}
    (looks : Outcome.ofEnd? id e = some (.error (.processorCrashed id))) :
    e = .error .crashed ∨ e = .error (.fault (.processorCrashed id)) := by
  cases e with
  | ok s => cases looks
  | error s =>
    cases s with
    | crashed => exact .inl rfl
    | blocked => cases looks
    | fault f =>
      obtain rfl : f = .processorCrashed id := Except.error.inj (Option.some.inj looks)
      exact .inr rfl

theorem Follows.lives {run : Option (Except Stop HaltState) × Rig ι ω} {panicked : Prop}
    (follows : c.Follows run) (truthful : c.processor.Truthful)
    (agrees : ¬ panicked → c.Agrees run)
    (settled : panicked → c.Settled (.error (.processorCrashed c.processor.id)))
    (modest : Channel.Modest ι → Channel.Modest ω →
      run.1 ≠ some (.error (.fault (.processorCrashed c.processor.id)))) :
    c.Lives fragile c.processor.id run panicked := by
  have ended {o : Outcome} (answered : c.processor.join.1 = some o) :
      c.processor.phase = .ended o :=
    phase_of_join truthful answered
  have outcome : ∀ o, c.processor.join.1 = some o →
      panicked ∧ o = .error (.processorCrashed c.processor.id) ∨
        ¬ panicked ∧ ∃ e, run.1 = some e ∧ Outcome.ofEnd? c.processor.id e = some o := by
    intro o answered
    have isOver : c.processor.over? = some o := by
      rw [over?, ended answered]
      rfl
    by_cases bad : panicked
    · exact .inl ⟨bad, Option.some.inj (isOver.symm.trans (settled bad).2)⟩
    · have same := (agrees bad).outcome
      rw [isOver] at same
      obtain ⟨e, here, told⟩ := Option.map_eq_some_iff.mp same.symm
      exact .inr ⟨bad, e, here, told⟩
  refine ⟨follows.machine, follows.trace, follows.input, ?_, goes_liveNext c, ?_, ?_, ?_, ?_,
    outcome, ?_⟩
  · intro started
    rw [Course.next, start_of_started started]
    exact ⟨rfl, rfl⟩
  · intro ready
    have unjoined := truthful.unjoined (by simp [ready])
    simp [Course.next, join, start, unjoined, ready]
  · intro isOver later enough
    obtain ⟨o, finished⟩ := ends fragile (mt follows.unended.mp isOver) enough
    rw [join_of_ended (truthful_live truthful later) finished]
    exact Option.some_ne_none o
  · intro o answered later
    exact join_of_ended (truthful_live truthful later) (ended_live (ended answered) later)
  · intro o answered
    have here : c.processor.status = .ofOutcome o := by
      rw [status, ended answered]
    exact ⟨here, by rw [here]; exact Status.ofOutcome_eq_halted_iff⟩
  · intro inlet outlet o answered
    constructor
    · rintro rfl
      rcases outcome _ answered with ⟨bad, -⟩ | ⟨calm, e, here, looks⟩
      · exact bad
      · rcases crashed_of_ofEnd looks with rfl | rfl
        · exact absurd here (agrees calm).calm
        · exact absurd here (modest inlet outlet)
    · intro bad
      rcases outcome o answered with ⟨-, crashed⟩ | ⟨calm, -⟩
      · exact crashed
      · exact absurd bad calm

/-- Whatever the owner of a processor and the users of its channels do, the processor makes one run
of its machine, and what the owner is told of it is the truth. -/
theorem lifecycle (fragile : ω → Bool) (id : String) (p : Program) (debug : Bool) (input : ι)
    (output : ω) (turns : List (Turn ν)) :
    let fresh : Course ν ι ω := load id p debug input output
    let rig : Rig ι ω := { machine := .load p id debug, input, output }
    let run := rig.among (Turn.allMoments false turns)
    let c := fresh.live fragile turns
    c.Lives fragile id run (fresh.Panicked fragile turns) ∧
    ((custody fragile fresh {} turns).join id c.processor.outcome?).1 = .ofJoin c.processor.join.1 ∧
    (Channel.Patient ι → Channel.Patient ω → (∀ turn ∈ turns, turn.isUse = false) →
      ∃ n, run = (unlessBlocked (rig.run n).1, (rig.run n).2)) := by
  intro fresh rig run c
  have truthful : c.processor.Truthful := truthful_live (c := fresh) nofun turns
  have begun : fresh.Follows (none, rig) :=
    ⟨rfl, rfl, rfl, fun _ => rfl, ⟨fun _ => rfl, fun _ => rfl⟩⟩
  have idle : false = true ↔ fresh.processor.phase ≠ .ready :=
    ⟨nofun, fun started => absurd rfl started⟩
  obtain ⟨follows, agrees⟩ := begun.live fragile nofun idle turns
  have named : c.processor.id = id := id_live turns
  refine ⟨?_, ?_, ?_⟩
  · have lives : c.Lives fragile c.processor.id run (fresh.Panicked fragile turns) :=
      Follows.lives follows truthful (fun calm => (agrees ⟨rfl, nofun⟩).resolve_right calm) ?_ ?_
    · rw [named] at lives
      exact lives
    · intro panicked
      rw [named]
      exact panicked.settled
    · intro inlet outlet
      exact Rig.among_ne_processorCrashed inlet outlet _ rig _
  · have kept : custody fragile fresh {} turns = .ofProcessor c.processor :=
      custody_eq (c := fresh) nofun turns
    rw [kept, ← named, Custody.join_ofProcessor]
  · intro patient prompt alone
    obtain ⟨n, steps⟩ := Turn.allMoments_eq alone false
    refine ⟨n, ?_⟩
    show rig.among (Turn.allMoments false turns) = _
    rw [steps, Rig.among_steps patient prompt]

/-- A processor whose input breaks down is started twice and then acts until it has ended: joins
tell that it has panicked, as the run of its machine has. -/
theorem broken_input_panics :
    let turns : List (Turn Unit) := [.start, .start, .act, .act, .act, .act, .join]
    let fresh := load "m" ⟨#[3, 0, 99]⟩ false Endpoint.broken Endpoint.unplugged
    let rig : Rig Endpoint Endpoint := ⟨.load ⟨#[3, 0, 99]⟩ "m", .broken, .unplugged, #[]⟩
    (fresh.live (fun _ => false) turns).processor.join.1 = some (.error (.processorCrashed "m")) ∧
      fresh.Panicked (fun _ => false) turns ∧
      ∃ n, rig.among (Turn.allMoments false turns) =
        (unlessBlocked (rig.run n).1, (rig.run n).2) := by
  intro turns fresh rig
  obtain ⟨lives, -, alone⟩ := lifecycle (fun _ => false) "m" ⟨#[3, 0, 99]⟩ false Endpoint.broken
    Endpoint.unplugged turns
  have answered : (fresh.live (fun _ => false) turns).processor.join.1 =
      some (.error (.processorCrashed "m")) := by decide +kernel
  exact ⟨answered, (lives.panic Endpoint.modest Endpoint.modest _ answered).mp rfl,
    alone Endpoint.patient Endpoint.patient (by decide)⟩

/-- A run that went well does not count if the output then breaks down when it is closed. -/
example : ((load (ν := Unit) "m" ⟨#[99]⟩ false Endpoint.unplugged Endpoint.unplugged).live
    (fun _ => true) [.start, .act, .act, .act, .act, .act]).processor.join.1 =
      some (.error (.processorCrashed "m")) := by decide +kernel

end Course

end Processor

end Intcode
