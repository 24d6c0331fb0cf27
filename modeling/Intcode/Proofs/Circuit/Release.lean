import Intcode.Proofs.Circuit.Chain
import Intcode.Proofs.Circuit.Linked
import Intcode.Proofs.Circuit.Ring

/-!
# Stages release each other

The end of a stage, normal or not, travels down the row, and in a ring through the relay back to the
first stage; the relay closes the inbox of the first stage whether it was stopped or found the
outlet closed. What breaks this is a halt at the last address: such a crash skips the closing of the
output, and the unit that reads from there waits for ever.
-/

namespace Intcode

namespace Relay

def Phase.isActive : Phase → Bool
  | .ready | .leaving _ | .ended _ => false
  | .checking | .polling | .tallying | .flushing _ | .holding .. | .answering ..
  | .closing _ => true

/-- The relay works, or it has gone and left its output closed. -/
def Phase.Serves (phase : Phase) (closed : Bool) : Prop :=
  phase.isActive = true ∨ phase.isGone = true ∧ closed = true

variable {relay : Relay Passing} {outlet inbox : Wire}

/-- What an act of the relay of a ring keeps: it neither opens nor closes the outlet, and when it
goes, it closes the inbox. Nothing makes it crash. -/
theorem act_passing (outlet : Wire) (serves : relay.phase.Serves inbox.closed) :
    (relay.act outlet inbox).input.closed = outlet.closed ∧
      (relay.act outlet inbox).relay.phase.Serves (relay.act outlet inbox).output.closed := by
  obtain ⟨id, device, stopped, interval, phase, joined⟩ := relay
  cases phase with
  | ready => rcases serves with h | ⟨h, -⟩ <;> cases h
  | checking => cases stopped <;> exact ⟨rfl, .inl rfl⟩
  | polling =>
    obtain ⟨got, outlet', polled, same, rfl | ⟨v, rfl⟩⟩ := outlet.poll_or_fault
    · simp only [act, polled]
      exact ⟨same, .inl rfl⟩
    · simp only [act, polled]
      cases v <;> exact ⟨same, .inl rfl⟩
  | tallying => exact ⟨rfl, .inl rfl⟩
  | flushing left =>
    cases left with
    | zero => exact ⟨rfl, .inl rfl⟩
    | succ left =>
      obtain ⟨got, outlet', polled, same, rfl | ⟨v, rfl⟩⟩ := outlet.poll_or_fault
      · simp only [act, polled]
        exact ⟨same, .inl rfl⟩
      · simp only [act, polled]
        cases v <;> exact ⟨same, .inl rfl⟩
  | holding v left => exact ⟨rfl, .inl rfl⟩
  | answering v left =>
    cases closed : inbox.closed with
    | false =>
      obtain ⟨inbox', given, -, -⟩ := Wire.put_of_open closed v
      simp only [act, given]
      cases left <;> exact ⟨trivial, .inl rfl⟩
    | true =>
      simp only [act, Wire.put_of_closed closed]
      exact ⟨trivial, .inl rfl⟩
  | closing o => exact ⟨rfl, .inr ⟨rfl, rfl⟩⟩
  | leaving o | ended o =>
    rcases serves with h | ⟨-, closed⟩
    · cases h
    · exact ⟨rfl, .inr ⟨rfl, closed⟩⟩

/-- The relay of a ring has something to do unless it is about to look at its stop signal or nothing
has arrived. -/
theorem act_passing_idle (active : relay.phase.isActive = true)
    (idle : (relay.act outlet inbox).event.isMove = false) :
    relay.phase = .checking ∧
        relay.act outlet inbox = ⟨{ relay with phase := .polling }, outlet, inbox, .idle⟩ ∨
      relay.phase = .polling ∧ outlet.toList = [] ∧ outlet.closed = false := by
  obtain ⟨id, device, stopped, interval, phase, joined⟩ := relay
  cases phase with
  | ready | leaving _ | ended _ => cases active
  | checking =>
    cases stopped with
    | true => cases idle
    | false => exact .inl ⟨rfl, rfl⟩
  | polling =>
    cases contents : outlet.toList with
    | nil =>
      simp only [act, Wire.poll_of_nil contents] at idle
      cases closed : outlet.closed with
      | true =>
        rw [closed] at idle
        cases idle
      | false => exact .inr ⟨rfl, rfl, rfl⟩
    | cons v rest =>
      obtain ⟨outlet', polled, -, -⟩ := Wire.poll_of_cons contents
      simp only [act, polled] at idle
      cases idle
  | flushing left => cases left <;> cases idle
  | answering v left =>
    cases closed : inbox.closed with
    | false =>
      obtain ⟨inbox', given, -, -⟩ := Wire.put_of_open closed v
      simp only [act, given] at idle
      cases idle
    | true =>
      simp only [act, Wire.put_of_closed closed] at idle
      cases idle
  | tallying | holding _ _ | closing _ => cases idle

end Relay

namespace Chain

/-- The first stage of a chain is fed no more. -/
theorem headClosed_of_reaches {p : Program} {phase signal : Word} {phases : List Word}
    {debug : Bool} {c : Chain} (reached : Reaches (load p (phase :: phases) signal debug) c) :
    Stage.headClosed c.stages = true := by
  induction reached with
  | refl => rfl
  | act i reached here ih =>
    exact ((row_of_reaches reached).act here).2.sealing.trans ih

theorem linked_of_reaches {p : Program} {phase signal : Word} {phases : List Word}
    {debug : Bool} {c : Chain} (reached : Reaches (load p (phase :: phases) signal debug) c) :
    Stage.Linked c.stages c.outlet := by
  induction reached with
  | refl => exact Stage.linked_start rfl _ _ p debug 0 phases
  | act i reached here ih => exact (row_of_reaches reached).linked_act ih here

/-- In a chain that has not ended some stage has something to do, unless a stage is stranded. -/
theorem goes_on_or_stranded {p : Program} {phases : List Word} {signal : Word} {debug : Bool}
    {c : Chain} (reached : Reaches (load p phases signal debug) c)
    (unfinished : ∃ s ∈ c.stages, s.cpu.outcome? = none) :
    (∃ i < System.units c, (System.act c i).2 = true) ∨ Stage.Stranded c.stages := by
  cases phases with
  | nil =>
    obtain ⟨s, mem, -⟩ := unfinished
    rw [eq_load_of_reaches reached] at mem
    cases mem
  | cons phase phases =>
    have linked := linked_of_reaches reached
    have closed := headClosed_of_reaches reached
    rcases (row_of_reaches reached).goes_on linked with moves | rests
    · exact .inl moves
    · obtain ⟨stages, outlet⟩ := c
      cases stages with
      | nil => cases closed
      | cons s rest =>
        refine .inr (linked.stranded_of_head rests ?_ unfinished)
        refine (rests s (.head _)).resolve_right fun waits => ?_
        exact waits.ne_closed ((Stage.headClosed_cons s rest).symm.trans closed)

end Chain

namespace Ring

/-- Whether a unit has something to do other than to poll in vain. The relay looks at its stop
signal before each poll; if the signal is not raised, that counts only for what the poll finds. -/
def CanGoOn (r : Ring) (i : Nat) : Prop :=
  (System.act r i).2 = true ∨
    i = r.stages.length ∧ r.relay.phase = .checking ∧ r.actRelay.1.actRelay.2 = true

/-- The last stage has crashed, and the first one waits for what only the last one could send. -/
def HeadStranded (r : Ring) : Prop :=
  ∃ s ∈ r.stages.getLast?, ∃ t ∈ r.stages.head?,
    Stage.Crashed s.cpu ∧ t.Waits ∧ r.outlet.toList = [] ∧ r.outlet.closed = false

/-- What holds a ring together: the stages are linked, and a relay that has gone has closed the
inbox of the first one. -/
structure Held (r : Ring) : Prop where
  linked : Stage.Linked r.stages r.outlet
  serves : r.relay.phase.Serves (Stage.headClosed r.stages)

variable {p : Program} {debug : Bool} {phase signal : Word} {phases sent relayed : List Word}
  {r : Ring}

theorem held_load (p : Program) (debug : Bool) (phase signal : Word) (phases : List Word) :
    Held (load p (phase :: phases) signal debug) :=
  ⟨Stage.linked_start rfl _ _ p debug 0 phases, .inl rfl⟩

theorem Held.actStage (held : Held r)
    (sound : Sound p debug phase signal phases sent relayed r) {i : Nat}
    (here : i < r.stages.length) : Held (r.actStage i).1 := by
  have sealing : Stage.headClosed (r.actStage i).1.stages = Stage.headClosed r.stages :=
    (sound.row.act here).2.sealing
  refine ⟨sound.row.linked_act held.linked here, ?_⟩
  rw [sealing, (relay_actStage r i).1]
  exact held.serves

theorem Held.actRelay (held : Held r) : Held r.actRelay.1 := by
  obtain ⟨stages, outlet, relay⟩ := r
  cases stages with
  | nil => exact held
  | cons s rest =>
    obtain ⟨cpu, inbox⟩ := s
    obtain ⟨linked, serves⟩ := held
    rw [Stage.headClosed_cons] at serves
    obtain ⟨same, serves'⟩ := Relay.act_passing outlet serves
    refine ⟨(linked.feed _).drain same, ?_⟩
    rw [← Stage.headClosed_cons ⟨cpu, _⟩ rest] at serves'
    exact serves'

theorem held_of_observed
    (run : Observed sentByTail (load p (phase :: phases) signal debug) sent r) : Held r := by
  induction run with
  | refl => exact held_load p debug phase signal phases
  | act i run here ih =>
    rename_i sent r
    obtain ⟨relayed, sound⟩ := sound_of_observed run
    by_cases stage : i < r.stages.length
    · simp only [System.act, if_pos stage]
      exact ih.actStage sound stage
    · simp only [System.act, if_neg stage]
      exact ih.actRelay

/-- The relay of a ring has something to do, unless it waits at the outlet. -/
theorem relay_rests {s : Stage} {rest : List Stage} {outlet : Wire} {relay : Relay Passing}
    (active : relay.phase.isActive = true)
    (still : ¬CanGoOn ⟨s :: rest, outlet, relay⟩ (rest.length + 1)) :
    outlet.toList = [] ∧ outlet.closed = false := by
  obtain ⟨idle, later⟩ := not_or.mp still
  have first : (relay.act outlet s.inbox).event.isMove = false := by
    simpa [System.act, Ring.actRelay] using idle
  rcases Relay.act_passing_idle active first with ⟨checking, acted⟩ | ⟨-, arrived⟩
  · have second : relay.phase = .checking →
        (Relay.act { relay with phase := .polling } outlet s.inbox).event.isMove = false := by
      simpa [Ring.actRelay, acted] using later
    rcases Relay.act_passing_idle rfl (second checking) with ⟨checking, -⟩ | ⟨-, arrived⟩
    · cases checking
    · exact arrived
  · exact arrived

theorem stages_of_reaches (reached : Reaches (load p [] signal debug) r) : r.stages = [] := by
  induction reached with
  | refl => rfl
  | act i reached here ih =>
    rename_i r
    simp only [System.act, ih, List.length_nil, Nat.not_lt_zero, if_false, Ring.actRelay]

/-- In a ring of which some stage has ended and some has not, some unit has something to do, unless
a stage is stranded. -/
theorem goes_on_or_stranded {phases : List Word}
    (reached : Reaches (load p phases signal debug) r)
    (finished : ∃ s ∈ r.stages, s.cpu.outcome? ≠ none)
    (unfinished : ∃ s ∈ r.stages, s.cpu.outcome? = none) :
    (∃ i < System.units r, r.CanGoOn i) ∨ Stage.Stranded r.stages ∨ r.HeadStranded := by
  cases phases with
  | nil =>
    obtain ⟨s, mem, -⟩ := finished
    rw [stages_of_reaches reached] at mem
    cases mem
  | cons phase phases =>
    obtain ⟨sent, run⟩ := reached.observed sentByTail
    obtain ⟨relayed, sound⟩ := sound_of_observed run
    have held := held_of_observed run
    by_cases goes : ∃ i < System.units r, r.CanGoOn i
    · exact .inl goes
    · have rests : ∀ s ∈ r.stages, s.cpu.outcome? ≠ none ∨ s.Waits := by
        refine (sound.row.goes_on held.linked).resolve_left ?_
        rintro ⟨i, here, moves⟩
        refine goes ⟨i, Nat.lt_succ_of_lt here, .inl ?_⟩
        simp only [System.act, if_pos here]
        exact moves
      right
      obtain ⟨stages, outlet, relay⟩ := r
      cases stages with
      | nil =>
        obtain ⟨s, mem, -⟩ := finished
        cases mem
      | cons s rest =>
        obtain ⟨linked, serves⟩ := held
        rcases rests s (.head _) with ended | waits
        · exact .inl (linked.stranded_of_head rests ended unfinished)
        rcases linked.stranded_or_last rests finished with stranded | ⟨t, last, ended⟩
        · exact .inl stranded
        have active := serves.resolve_right fun gone =>
          waits.ne_closed ((Stage.headClosed_cons s rest).symm.trans gone.2)
        obtain ⟨empty, more⟩ := relay_rests active fun moves =>
          goes ⟨_, Nat.lt_succ_self _, moves⟩
        rcases linked.leaves t last (Processor.isGone_of_outcome ended) with closed | crashed
        · rw [more] at closed
          cases closed
        · exact .inr ⟨t, last, s, rfl, crashed, waits, empty, more⟩

end Ring

/-- Chains and rings get stuck only where a stage that a halt at the last address has crashed leaves
another one waiting: as long as some stage of a chain has not ended, some stage has something to do,
and once some stage of a ring has ended and some has not, so has some stage or the relay. -/
theorem circuits_stuck_only_by_crash (p : Program) (phases : List Word) (signal : Word)
    (debug : Bool) :
    (∀ c, Reaches (Chain.load p phases signal debug) c →
      (∃ s ∈ c.stages, s.cpu.outcome? = none) →
      (∃ i < System.units c, (System.act c i).2 = true) ∨ Stage.Stranded c.stages) ∧
    ∀ r, Reaches (Ring.load p phases signal debug) r →
      (∃ s ∈ r.stages, s.cpu.outcome? ≠ none) → (∃ s ∈ r.stages, s.cpu.outcome? = none) →
      (∃ i < System.units r, r.CanGoOn i) ∨ Stage.Stranded r.stages ∨ r.HeadStranded :=
  ⟨fun _ => Chain.goes_on_or_stranded, fun _ => Ring.goes_on_or_stranded⟩

/-- The adding chain at its start, and the circling ring when its first stage has just ended. -/
theorem adding_circling_go_on :
    let c := Chain.adding
    let r := settle 53 Ring.circling
    (∃ s ∈ c.stages, s.cpu.outcome? = none) ∧
    ((∃ i < System.units c, (System.act c i).2 = true) ∨ Stage.Stranded c.stages) ∧
    (∃ s ∈ r.stages, s.cpu.outcome? ≠ none) ∧ (∃ s ∈ r.stages, s.cpu.outcome? = none) ∧
    ((∃ i < System.units r, r.CanGoOn i) ∨ Stage.Stranded r.stages ∨ r.HeadStranded) := by
  intro c r
  have unfinished : ∃ s ∈ c.stages, s.cpu.outcome? = none := by decide +kernel
  have ended : ∃ s ∈ r.stages, s.cpu.outcome? ≠ none := by decide +kernel
  have running : ∃ s ∈ r.stages, s.cpu.outcome? = none := by decide +kernel
  have reached := reaches_settle 53 Ring.circling
  exact ⟨unfinished, (circuits_stuck_only_by_crash _ [1, 2] 5 false).1 c .refl unfinished, ended,
    running, (circuits_stuck_only_by_crash _ [1, 2] 1 false).2 r reached ended running⟩

/-- With phase 0 this program goes to the last address, where it has put a halt, and with any other
phase it takes two values. -/
def leaping : Program :=
  ⟨#[3, 20, 1005, 20, 12, 1101, 0, 99, 9223372036854775807, 1105, 1, 9223372036854775807, 3, 21, 3,
    22, 99]⟩

/-- The first stage of this chain crashes, and the second one waits for ever. In the ring it is the
other way round. -/
theorem leaping_gets_stuck :
    let c := settle 100 (Chain.load leaping [0, 1] 5 false)
    let r := settle 100 (Ring.load leaping [1, 0] 5 false)
    (Reaches (Chain.load leaping [0, 1] 5 false) c ∧ (∃ s ∈ c.stages, s.cpu.outcome? = none) ∧
      ∀ i < System.units c, (System.act c i).2 = false) ∧
    Reaches (Ring.load leaping [1, 0] 5 false) r ∧ (∃ s ∈ r.stages, s.cpu.outcome? ≠ none) ∧
      (∃ s ∈ r.stages, s.cpu.outcome? = none) ∧ ∀ i < System.units r, ¬r.CanGoOn i := by
  intro c r
  refine ⟨⟨reaches_settle 100 _, ?_, ?_⟩, reaches_settle 100 _, ?_, ?_, ?_⟩
  · decide +kernel
  · decide +kernel
  · decide +kernel
  · decide +kernel
  · have still : ∀ i < System.units r, (System.act r i).2 = false := by decide +kernel
    have vain : r.actRelay.1.actRelay.2 = false := by decide +kernel
    rintro i here (moves | ⟨-, -, polls⟩)
    · rw [still i here] at moves
      cases moves
    · rw [vain] at polls
      cases polls

end Intcode
