import Intcode.Proofs.Circuit.Row
import Mathlib.Data.List.Chain

/-!
# Linked stages

How the end of a stage reaches the stage behind it. A stage that is done with its output has closed
it, unless a halt at the last address has crashed it. So in a row where nothing happens any more, a
stage that has ended has only ended ones behind it, down to the first that waits for a crashed one.
-/

namespace Intcode

namespace Processor

variable {ν : Type}

/-- Whether the output has been closed, or a crash has skipped that. -/
def Phase.isGone : Phase ν → Bool
  | .reporting _ | .ending _ | .notifying .. | .ended _ => true
  | .ready | .running | .closing _ => false

theorem isGone_of_outcome {p : Processor ν} (ended : p.outcome? ≠ none) :
    p.phase.isGone = true := by
  rw [outcome?] at ended
  split at ended
  · rename_i phase
    rw [phase]
    rfl
  · exact absurd rfl ended

theorem isMove_eventOf {result : Except Stop Progress} (traffic : Option Traffic)
    (moves : result ≠ .error .blocked) : (eventOf (ν := ν) result traffic).isMove = true := by
  unfold eventOf
  split
  · exact absurd rfl moves
  · rfl
  · rfl

end Processor

namespace Stage

/-- A halt at the last address has ended the run. -/
def Crashed (cpu : Processor Unit) : Prop :=
  cpu.over? = some (.error (.processorCrashed cpu.id)) ∧ cpu.machine.BrokenDown

/-- The stage is about to take a value and waits for it on an open wire with nothing on it. -/
structure Waits (s : Stage) : Prop where
  running : s.cpu.phase = .running
  demand : s.cpu.machine.demand = .word
  empty : s.inbox.toList = []
  more : s.inbox.closed = false

theorem Waits.ne_closed {s : Stage} (waits : s.Waits) : s.inbox.closed ≠ true := by
  rw [waits.more]
  exact Bool.false_ne_true

/-- A stage that is done with its output has closed it or crashed. -/
def Tied (cpu : Processor Unit) (output : Wire) : Prop :=
  cpu.phase.isGone = true → output.closed = true ∨ Crashed cpu

/-- All stages have been started, and each is tied to the wire behind it. -/
structure Linked (stages : List Stage) (outlet : Wire) : Prop where
  started : ∀ s ∈ stages, s.cpu.phase ≠ .ready
  passes : stages.IsChain fun s t => Tied s.cpu t.inbox
  leaves : ∀ s ∈ stages.getLast?, Tied s.cpu outlet

variable {cpu : Processor Unit} {inbox outbox outlet : Wire} {s t : Stage}
  {stages rest : List Stage}

/-- An act keeps a stage tied to its output. -/
theorem Tied.act (tied : Tied cpu outbox) (inbox : Wire) (started : cpu.phase ≠ .ready)
    (accepts : cpu.over? = none → outbox.closed = false) :
    (cpu.act inbox outbox).processor.phase ≠ .ready ∧
      Tied (cpu.act inbox outbox).processor (cpu.act inbox outbox).output := by
  by_cases running : cpu.phase = .running
  · have onWires := Rig.step_onWires ⟨cpu.machine, inbox, outbox, cpu.trace⟩
      (accepts (Processor.over?_of_running running))
    rw [Processor.act_of_running running]
    generalize Rig.step ⟨cpu.machine, inbox, outbox, cpu.trace⟩ = step at onWires ⊢
    obtain ⟨result, rig, traffic⟩ := step
    cases result with
    | ok progress => cases progress <;> exact ⟨nofun, nofun⟩
    | error stop =>
      cases stop with
      | fault f => exact ⟨nofun, nofun⟩
      | blocked => exact ⟨nofun, nofun⟩
      | crashed => exact ⟨nofun, fun _ => .inr ⟨rfl, onWires.crashing rfl⟩⟩
  · obtain ⟨id, machine, trace, phase, listeners, fired, joined⟩ := cpu
    cases phase with
    | ready => exact absurd rfl started
    | running => exact absurd rfl running
    | closing o => exact ⟨nofun, fun _ => .inl rfl⟩
    | reporting o => exact ⟨nofun, fun _ => tied rfl⟩
    | ending o => exact ⟨nofun, fun _ => tied rfl⟩
    | notifying o waiting => cases waiting <;> exact ⟨nofun, fun _ => tied rfl⟩
    | ended o => exact ⟨nofun, tied⟩

/-- A stage has something to do unless it has ended or waits. -/
theorem act_moves (inbox : Wire) (started : cpu.phase ≠ .ready)
    (accepts : cpu.over? = none → outbox.closed = false) :
    (cpu.act inbox outbox).event.isMove = true ∨ cpu.outcome? ≠ none ∨ Waits ⟨cpu, inbox⟩ := by
  by_cases running : cpu.phase = .running
  · have onWires := Rig.step_onWires ⟨cpu.machine, inbox, outbox, cpu.trace⟩
      (accepts (Processor.over?_of_running running))
    by_cases waits : (Rig.step ⟨cpu.machine, inbox, outbox, cpu.trace⟩).result = .error .blocked
    · obtain ⟨demand, empty, more⟩ := onWires.lacking waits
      exact .inr (.inr ⟨running, demand, empty, more⟩)
    · rw [Processor.act_of_running running]
      exact .inl (Processor.isMove_eventOf _ waits)
  · obtain ⟨id, machine, trace, phase, listeners, fired, joined⟩ := cpu
    cases phase with
    | ready => exact absurd rfl started
    | running => exact absurd rfl running
    | closing o | reporting o | ending o => exact .inl rfl
    | notifying o waiting => cases waiting <;> exact .inl rfl
    | ended o => exact .inr (.inl nofun)

theorem linked_singleton :
    Linked [s] outlet ↔ s.cpu.phase ≠ .ready ∧ Tied s.cpu outlet := by
  constructor
  · intro linked
    exact ⟨linked.started s (.head _), linked.leaves s rfl⟩
  · rintro ⟨started, tied⟩
    exact ⟨by simpa using started, .singleton s, by simpa using tied⟩

theorem linked_cons_cons :
    Linked (s :: t :: rest) outlet ↔
      s.cpu.phase ≠ .ready ∧ Tied s.cpu t.inbox ∧ Linked (t :: rest) outlet := by
  constructor
  · rintro ⟨started, passes, leaves⟩
    obtain ⟨first, others⟩ := List.forall_mem_cons.mp started
    obtain ⟨tied, passes⟩ := List.isChain_cons_cons.mp passes
    rw [List.getLast?_cons_cons] at leaves
    exact ⟨first, tied, others, passes, leaves⟩
  · rintro ⟨first, tied, others, passes, leaves⟩
    rw [← List.getLast?_cons_cons (a := s)] at leaves
    exact ⟨List.forall_mem_cons.mpr ⟨first, others⟩, List.isChain_cons_cons.mpr ⟨tied, passes⟩,
      leaves⟩

theorem tied_of_running (running : cpu.phase = .running) (output : Wire) : Tied cpu output := by
  intro gone
  rw [running] at gone
  cases gone

theorem linked_of_running (running : ∀ s ∈ stages, s.cpu.phase = .running) (outlet : Wire) :
    Linked stages outlet := by
  induction stages with
  | nil => exact ⟨by simp, .nil, by simp⟩
  | cons s rest ih =>
    obtain ⟨first, others⟩ := List.forall_mem_cons.mp running
    have started : s.cpu.phase ≠ .ready := by
      rw [first]
      exact nofun
    cases rest with
    | nil => exact linked_singleton.mpr ⟨started, tied_of_running first outlet⟩
    | cons t rest =>
      exact linked_cons_cons.mpr ⟨started, tied_of_running first t.inbox, ih others⟩

/-- A row before its first act. -/
theorem linked_start (running : cpu.phase = .running) (inbox outlet : Wire) (p : Program)
    (debug : Bool) (index : Nat) (phases : List Word) :
    Linked (⟨cpu, inbox⟩ :: (phases.zipIdx (index + 1)).map fun e => load p debug e.2 e.1)
      outlet := by
  refine linked_of_running (fun s mem => ?_) outlet
  rcases List.mem_cons.mp mem with rfl | mem
  · exact running
  · obtain ⟨e, -, rfl⟩ := List.mem_map.mp mem
    rfl

/-- What the first stage is fed is of no concern to the links. -/
theorem Linked.feed (linked : Linked (⟨cpu, inbox⟩ :: rest) outlet) (inbox' : Wire) :
    Linked (⟨cpu, inbox'⟩ :: rest) outlet := by
  cases rest with
  | nil =>
    have alone := linked_singleton.mp linked
    exact linked_singleton.mpr alone
  | cons t rest =>
    have first := linked_cons_cons.mp linked
    exact linked_cons_cons.mpr first

/-- The wire behind the last stage matters only in whether it is closed. -/
theorem Linked.drain (linked : Linked stages outlet) {outlet' : Wire}
    (same : outlet'.closed = outlet.closed) : Linked stages outlet' := by
  refine ⟨linked.started, linked.passes, fun s last gone => ?_⟩
  rw [same]
  exact linked.leaves s last gone

variable {p : Program} {debug : Bool} {index i : Nat} {fed phases emitted : List Word}

/-- An act of a stage keeps all stages linked. -/
theorem Row.linked_act (row : Row p debug index fed phases stages outlet emitted)
    (linked : Linked stages outlet) (here : i < stages.length) :
    Linked (actAt i stages outlet).2.1 (actAt i stages outlet).2.2 := by
  induction row generalizing i with
  | last life accepts =>
    obtain rfl : i = 0 := by
      simp only [List.length_singleton] at here
      omega
    obtain ⟨started, tied⟩ := linked_singleton.mp linked
    exact linked_singleton.mpr (tied.act _ started accepts)
  | cons life accepts starves unheard row ih =>
    rename_i index fed passed phases emitted phase cpu next inbox between outlet rest
    obtain ⟨started, tied, others⟩ := linked_cons_cons.mp linked
    cases i with
    | zero =>
      obtain ⟨started', tied'⟩ := tied.act inbox started accepts
      exact linked_cons_cons.mpr ⟨started', tied', others.feed _⟩
    | succ i =>
      have later := Nat.lt_of_succ_lt_succ here
      have others' := ih others later
      have sealing := (row.act later).2.sealing
      have length := (row.act later).2.length
      simp only [actAt]
      generalize actAt i (⟨next, between⟩ :: rest) outlet = acted at others' sealing length
      obtain ⟨event, _ | ⟨t', rest'⟩, outlet'⟩ := acted
      · cases length
      · rw [headClosed_cons, headClosed_cons] at sealing
        refine linked_cons_cons.mpr ⟨started, fun gone => ?_, others'⟩
        rw [sealing]
        exact tied gone

/-- Where no stage of a row has anything to do, each one has ended or waits. -/
theorem Row.goes_on (row : Row p debug index fed phases stages outlet emitted)
    (linked : Linked stages outlet) :
    (∃ i < stages.length, (actAt i stages outlet).1.isMove = true) ∨
      ∀ s ∈ stages, s.cpu.outcome? ≠ none ∨ s.Waits := by
  induction row with
  | last life accepts =>
    rcases act_moves _ (linked_singleton.mp linked).1 accepts with moves | rests
    · exact .inl ⟨0, Nat.one_pos, moves⟩
    · exact .inr (List.forall_mem_singleton.mpr rests)
  | cons life accepts starves unheard row ih =>
    obtain ⟨started, -, others⟩ := linked_cons_cons.mp linked
    rcases act_moves _ started accepts with moves | rests
    · exact .inl ⟨0, Nat.succ_pos _, moves⟩
    · rcases ih others with ⟨i, here, moves⟩ | rest
      · exact .inl ⟨i + 1, Nat.succ_lt_succ here, moves⟩
      · exact .inr (List.forall_mem_cons.mpr ⟨rests, rest⟩)

/-- A stage that waits for one that has ended waits for one that crashed. -/
theorem Linked.crashed (linked : Linked stages outlet) (adjacent : [s, t] <:+: stages)
    (ended : s.cpu.outcome? ≠ none) (waits : t.Waits) : Crashed s.cpu := by
  have pair : [s, t].IsChain fun s t => Tied s.cpu t.inbox :=
    List.IsChain.infix linked.passes adjacent
  have tied := List.isChain_pair.mp pair
  rcases tied (Processor.isGone_of_outcome ended) with closed | crashed
  · exact absurd closed waits.ne_closed
  · exact crashed

/-- Some stage waits for the one before it, which has crashed. -/
def Stranded (stages : List Stage) : Prop :=
  ∃ s t, [s, t] <:+: stages ∧ Crashed s.cpu ∧ t.Waits

theorem Stranded.cons (stranded : Stranded stages) (s : Stage) : Stranded (s :: stages) := by
  obtain ⟨a, b, adjacent, crashed, waits⟩ := stranded
  exact ⟨a, b, List.infix_cons adjacent, crashed, waits⟩

theorem Linked.stranded (linked : Linked (s :: t :: rest) outlet) (ended : s.cpu.outcome? ≠ none)
    (waits : t.Waits) : Stranded (s :: t :: rest) := by
  have adjacent : [s, t] <:+: s :: t :: rest := ⟨[], rest, rfl⟩
  exact ⟨s, t, adjacent, linked.crashed adjacent ended waits, waits⟩

/-- If the first stage has ended and another one has not, one of the others is stranded. -/
theorem Linked.stranded_of_head (linked : Linked (s :: rest) outlet)
    (rests : ∀ u ∈ s :: rest, u.cpu.outcome? ≠ none ∨ u.Waits) (ended : s.cpu.outcome? ≠ none)
    (unfinished : ∃ u ∈ s :: rest, u.cpu.outcome? = none) : Stranded (s :: rest) := by
  induction rest generalizing s with
  | nil =>
    obtain ⟨u, mem, running⟩ := unfinished
    rw [List.mem_singleton.mp mem] at running
    exact absurd running ended
  | cons t rest ih =>
    obtain ⟨-, others⟩ := List.forall_mem_cons.mp rests
    rcases others t (.head _) with ended' | waits
    · refine (ih (linked_cons_cons.mp linked).2.2 others ended' ?_).cons s
      obtain ⟨u, mem, running⟩ := unfinished
      rcases List.mem_cons.mp mem with rfl | mem
      · exact absurd running ended
      · exact ⟨u, mem, running⟩
    · exact linked.stranded ended waits

/-- If some stage has ended, the last one has or one behind it is stranded. -/
theorem Linked.stranded_or_last (linked : Linked stages outlet)
    (rests : ∀ u ∈ stages, u.cpu.outcome? ≠ none ∨ u.Waits)
    (finished : ∃ u ∈ stages, u.cpu.outcome? ≠ none) :
    Stranded stages ∨ ∃ u ∈ stages.getLast?, u.cpu.outcome? ≠ none := by
  induction stages with
  | nil =>
    obtain ⟨u, mem, -⟩ := finished
    cases mem
  | cons s rest ih =>
    cases rest with
    | nil =>
      obtain ⟨u, mem, ended⟩ := finished
      rw [List.mem_singleton.mp mem] at ended
      exact .inr ⟨s, rfl, ended⟩
    | cons t rest =>
      obtain ⟨-, others⟩ := List.forall_mem_cons.mp rests
      by_cases later : ∃ u ∈ t :: rest, u.cpu.outcome? ≠ none
      · rw [List.getLast?_cons_cons]
        exact (ih (linked_cons_cons.mp linked).2.2 others later).imp (fun h => h.cons s) id
      · have waits : t.Waits :=
          (others t (.head _)).resolve_left fun ended => later ⟨t, .head _, ended⟩
        obtain ⟨u, mem, ended⟩ := finished
        rcases List.mem_cons.mp mem with rfl | mem
        · exact .inl (linked.stranded ended waits)
        · exact absurd ⟨u, mem, ended⟩ later

end Stage

end Intcode
