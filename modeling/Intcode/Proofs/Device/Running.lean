import Intcode.Proofs.Device.Mirror

/-!
# Acts of a loop's processor

A processor whose machine moves does what the coroutine does next. It moves only when the coroutine
can: the gate keeps it from reading as long as something is due.
-/

namespace Intcode

namespace Loop

section Acting

variable {ι τ : Type} [Channel ι]

theorem take_of_shut {g : Gate ι} (shut : g.shut = true) :
    Channel.take g = (.error .blocked, g) :=
  if_pos shut

theorem take_of_open {g : Gate ι} (through : g.shut = false) :
    Channel.take g = ((Channel.take g.inner).1, { g with inner := (Channel.take g.inner).2 }) :=
  if_neg (by rw [through]; nofun)

/-- An act of a processor that has counted what it put on the line. -/
theorem actCpu_of_counted {l : Loop ι τ} (counted : l.uncounted = false) :
    l.actCpu.1 =
      let a := l.cpu.act l.gate l.line
      { l with
        cpu := a.processor
        relay := match a.event with | .notified () => l.relay.stop | _ => l.relay
        input := a.input.inner
        line := a.output
        uncounted := match a.event with | .sent _ => true | _ => false } := by
  obtain ⟨cpu, relay, input, line, emitted, settled, detached, uncounted, unsettled⟩ := l
  cases counted
  rfl

/-- A step of the machine, told by the parts of the loop. -/
theorem actCpu_of_running {l : Loop ι τ} (counted : l.uncounted = false)
    (running : l.cpu.phase = .running) {s : Stepped (Gate ι) Wire}
    (step : Rig.step ⟨l.cpu.machine, l.gate, l.line, l.cpu.trace⟩ = s)
    (idle : s.result = .error .blocked → s.traffic = none) :
    ∃ uncounted : Bool, uncounted.toNat = (Traffic.words s.traffic).length ∧
      l.actCpu.1 =
        { l with
          cpu := l.cpu.stepped s.result s.rig.machine s.rig.trace
          input := s.rig.input.inner
          line := s.rig.output
          uncounted } := by
  have said := Processor.words_eventOf (ν := Unit) idle
  have unheard := Processor.eventOf_ne_notified (ν := Unit) s.result s.traffic ()
  rw [actCpu_of_counted counted, Processor.act_of_running running, step, ← said]
  simp only
  revert unheard
  cases Processor.eventOf s.result s.traffic with
  | idle => exact fun _ => ⟨false, rfl, rfl⟩
  | moved => exact fun _ => ⟨false, rfl, rfl⟩
  | sent v => exact fun _ => ⟨true, rfl, rfl⟩
  | notified l => exact fun unheard => absurd rfl unheard

/-- An act in which the machine rests, told by the parts of the loop. -/
theorem actCpu_of_resting {l : Loop ι τ} (counted : l.uncounted = false)
    (resting : l.cpu.phase ≠ .running) :
    ∃ stopped : Bool, (stopped = true → l.relay.stopped = true ∨ l.cpu.over? ≠ none) ∧
      l.actCpu.1 =
        { l with
          cpu := (l.cpu.act l.gate l.line).processor
          relay := { l.relay with stopped }
          line := (l.cpu.act l.gate l.line).output } := by
  have rests := Processor.act_rests resting l.gate l.line
  have inner : (l.cpu.act l.gate l.line).input.inner = l.input := by
    rw [rests.input]
    rfl
  cases event : (l.cpu.act l.gate l.line).event with
  | sent v =>
    have silent := rests.silent
    rw [event] at silent
    cases silent
  | notified u =>
    refine ⟨true, fun _ => Or.inr (rests.notifies u event), ?_⟩
    simp only [actCpu_of_counted counted, event, inner, counted, Relay.stop]
  | idle =>
    refine ⟨l.relay.stopped, Or.inl, ?_⟩
    simp only [actCpu_of_counted counted, event, inner, counted]
  | moved =>
    refine ⟨l.relay.stopped, Or.inl, ?_⟩
    simp only [actCpu_of_counted counted, event, inner, counted]

end Acting

variable {τ : Type} [Device τ] {id : String} {told : List Word} {own : Endpoint}
  {l : Loop Endpoint τ} {e : Option (Except Stop HaltState)} {c : Coroutine Endpoint τ}

/-- While the processor runs, the relay has noticed no stop and has not come to an orderly end. -/
theorem Orderly.relay_of_fresh (orderly : Orderly l) (fresh : l.cpu.over? = none) :
    l.relay.stopped ≠ true ∧ l.relay.phase.isStopping ≠ true ∧
      l.relay.phase.over? ≠ some (.ok ()) :=
  ⟨fun stopped => orderly.stopped stopped fresh, fun stopping => orderly.stopping stopping fresh,
    fun finished => (orderly.finished finished).1 fresh⟩

/-- A step of the machine puts at most one value on the line, which is still to be counted. -/
theorem Orderly.advance (orderly : Orderly l) (fresh : l.cpu.over? = none)
    (counted : l.uncounted = false) {cpu : Processor Unit} {input : Endpoint} {line : Wire}
    {words : List Word} {uncounted : Bool} (said : line.toList = l.line.toList ++ words)
    (accepts : line.closed = false) (one : uncounted.toNat = words.length) :
    Orderly { l with cpu, input, line, uncounted } := by
  obtain ⟨unstopped, unstopping, unfinished⟩ := orderly.relay_of_fresh fresh
  refine ⟨?_, fun _ => accepts, fun stopped => absurd stopped unstopped,
    fun stopping => absurd stopping unstopping, ?_, fun finished => absurd finished unfinished,
    orderly.detached, orderly.steady⟩
  · have count := orderly.count
    rw [counted] at count
    simp only [Bool.toNat_false] at count
    simp only [one, said, List.length_append]
    omega
  · intro left noted
    refine absurd ?_ unstopping
    exact Relay.Phase.isStopping_of_left noted

theorem Mirrors.input_of_fresh (mirrors : Mirrors id told own l (e, c))
    (fresh : l.cpu.over? = none) : l.input = own :=
  mirrors.input_of_unfinished (mirrors.orderly.relay_of_fresh fresh).2.2

/-- A step of the processor's machine that the coroutine keeps up with. -/
theorem Mirrors.advance (mirrors : Mirrors id told own l (e, c)) (counted : l.uncounted = false)
    (running : l.cpu.phase = .running) {s : Stepped (Gate Endpoint) Wire}
    (step : Rig.step ⟨l.cpu.machine, l.gate, l.line, l.cpu.trace⟩ = s)
    (moves : s.result ≠ .error .blocked) (sameResult : c.step.1 = s.result)
    (sameMachine : c.step.2.machine = s.rig.machine)
    (said : s.rig.output.toList = l.line.toList ++ Traffic.words s.traffic)
    (accepts : s.rig.output.closed = false) (whole : s.rig.input.inner ≠ .broken)
    (refused : l.relay.phase.refusal? ≠ none → Channel.close s.rig.input.inner = s.rig.input.inner)
    (service : c.step.2.service = due { l with line := s.rig.output } s.rig.input.inner told) :
    Mirrors id told s.rig.input.inner l.actCpu.1
      (endOf c.step.2.machine c.step.1, c.step.2) := by
  have fresh := Processor.over?_of_running running
  obtain ⟨-, -, unfinished⟩ := mirrors.orderly.relay_of_fresh fresh
  obtain ⟨uncounted, one, acted⟩ :=
    actCpu_of_running counted running step fun waits => absurd waits moves
  rw [acted]
  refine ⟨mirrors.orderly.advance fresh counted said accepts one, mirrors.named, whole, ?_, refused,
    ?_, sameMachine, service⟩
  · simp only [Relay.Phase.closes_of_unfinished unfinished]
    rfl
  · rw [← mirrors.named, sameResult, sameMachine]
    exact (Processor.over?_stepped l.cpu _ _ moves).symm

/-- When the gate is open to the machine, nothing is due. -/
theorem Orderly.still (orderly : Orderly l) (fresh : l.cpu.over? = none)
    (counted : l.uncounted = false)
    (through : (decide (l.settled < l.emitted) && !l.detached) = false) : Still l := by
  cases detached : l.detached with
  | true =>
    right
    obtain ⟨o, ended⟩ := orderly.detached detached
    cases o with
    | ok u =>
      have finished := (orderly.finished (by rw [ended]; rfl)).1
      exact absurd fresh finished
    | error f =>
      rw [ended]
      nofun
  | false =>
    left
    have count := orderly.count
    simp only [detached, Bool.not_false, Bool.and_true, decide_eq_false_iff_not] at through
    rw [counted, Bool.toNat_false] at count
    exact ⟨List.length_eq_zero_iff.mp (by omega), List.length_eq_zero_iff.mp (by omega)⟩

/-- An act in which the machine rests. The line may be closed once the run is over, and only then
can the relay be stopped. -/
theorem Mirrors.rest {run : Option (Except Stop HaltState) × Coroutine Endpoint τ}
    (mirrors : Mirrors id told own l run) (cpu : Processor Unit) (named : cpu.id = l.cpu.id)
    (machine : cpu.machine = l.cpu.machine) (outcome : cpu.over? = l.cpu.over?) {line : Wire}
    (closing : line = l.line ∨ l.cpu.over? ≠ none ∧ line = Channel.close l.line) {stopped : Bool}
    (stopping : stopped = true → l.relay.stopped = true ∨ l.cpu.over? ≠ none) :
    Mirrors id told own { l with cpu, relay := { l.relay with stopped }, line } run := by
  have orderly := mirrors.orderly
  have contents : line.toList = l.line.toList := by
    rcases closing with rfl | ⟨-, rfl⟩ <;> rfl
  refine ⟨⟨?_, ?_, ?_, ?_, ?_, ?_, orderly.detached, orderly.steady⟩, named.trans mirrors.named,
    mirrors.whole, mirrors.input, mirrors.refused, ?_, mirrors.machine.trans machine.symm, ?_⟩
  · simp only [contents]
    exact orderly.count
  · simp only [outcome]
    intro fresh
    rcases closing with rfl | ⟨done, -⟩
    · exact orderly.accepts fresh
    · exact absurd fresh done
  · simp only [outcome]
    exact fun raised => (stopping raised).elim orderly.stopped fun done => done
  · simp only [outcome]
    exact orderly.stopping
  · simp only [contents]
    exact orderly.backlog
  · simp only [outcome, contents]
    exact orderly.finished
  · simp only [outcome]
    exact mirrors.outcome
  · simp only [mirrors.service, due, contents]

/-- An act in which the machine waits for input. -/
theorem Mirrors.wait (mirrors : Mirrors id told own l (e, c)) (counted : l.uncounted = false)
    (running : l.cpu.phase = .running)
    (step : Rig.step ⟨l.cpu.machine, l.gate, l.line, l.cpu.trace⟩ =
      ⟨.error .blocked, ⟨l.cpu.machine, l.gate, l.line, l.cpu.trace⟩, none⟩) :
    Mirrors id told own l.actCpu.1 (e, c) := by
  have fresh := Processor.over?_of_running running
  obtain ⟨uncounted, one, acted⟩ := actCpu_of_running counted running step fun _ => rfl
  obtain rfl : uncounted = l.uncounted := (Bool.toNat_eq_zero.mp one).trans counted.symm
  rw [acted]
  exact mirrors.rest (l.cpu.stepped (.error .blocked) l.cpu.machine l.cpu.trace) rfl rfl fresh.symm
    (Or.inl rfl) Or.inl

/-- An act in which the machine uses no channel. -/
theorem Mirrors.compute (mirrors : Mirrors id told own l (e, c)) (counted : l.uncounted = false)
    (running : l.cpu.phase = .running) (demand : l.cpu.machine.demand = .nothing) :
    Mirrors id told own l.actCpu.1 (endOf c.step.2.machine c.step.1, c.step.2) := by
  have fresh := Processor.over?_of_running running
  have machine : c.machine = l.cpu.machine := mirrors.machine
  obtain rfl := mirrors.input_of_fresh fresh
  have step := Rig.step_of_nothing ⟨l.cpu.machine, l.gate, l.line, l.cpu.trace⟩ demand
  have ref := Coroutine.step_of_nothing c (by rw [machine]; exact demand)
  refine mirrors.advance counted running step (Machine.turn_ne_blocked _ _) ?_ ?_
    (List.append_nil _).symm (mirrors.orderly.accepts fresh) mirrors.whole mirrors.refused ?_
  · rw [ref, machine]
  · rw [ref, machine]
  · rw [ref]
    exact mirrors.service

/-- An act in which the machine puts a value on the line. The coroutine's device is told it at once,
the loop's only once it is taken from there. -/
theorem Mirrors.emit (mirrors : Mirrors id told own l (e, c)) (counted : l.uncounted = false)
    (running : l.cpu.phase = .running) {v : Word} (demand : l.cpu.machine.demand = .room v) :
    Mirrors id told own l.actCpu.1 (endOf c.step.2.machine c.step.1, c.step.2) := by
  have fresh := Processor.over?_of_running running
  have machine : c.machine = l.cpu.machine := mirrors.machine
  have service : c.service = l.due own told := mirrors.service
  obtain rfl := mirrors.input_of_fresh fresh
  obtain ⟨line, given, appended, still⟩ := Wire.put_of_open (mirrors.orderly.accepts fresh) v
  have step := Rig.step_of_room ⟨l.cpu.machine, l.gate, l.line, l.cpu.trace⟩ demand
  have ref := Coroutine.step_of_room c (by rw [machine]; exact demand)
  have served : c.service.serve v = due { l with line } l.input told := by
    rw [service, due, due, appended, List.foldl_append]
    rfl
  simp only [given] at step
  refine mirrors.advance counted running step (Machine.turn_ne_blocked _ _) ?_ ?_ appended still
    mirrors.whole mirrors.refused ?_
  · rw [ref, machine]
  · rw [ref, machine]
  · rw [ref]
    exact served

/-- An act in which the machine finds the gate open. Nothing is due, so it finds there what the
coroutine finds. -/
theorem Mirrors.read (mirrors : Mirrors id told own l (e, c)) (counted : l.uncounted = false)
    (running : l.cpu.phase = .running) (demand : l.cpu.machine.demand = .word)
    (through : l.gate.shut = false) :
    ∃ own', Mirrors id told own' l.actCpu.1 (e, c) ∨
      Mirrors id told own' l.actCpu.1 (endOf c.step.2.machine c.step.1, c.step.2) := by
  have fresh := Processor.over?_of_running running
  have accepts := mirrors.orderly.accepts fresh
  have machine : c.machine = l.cpu.machine := mirrors.machine
  have service : c.service = l.due own told := mirrors.service
  have still := mirrors.orderly.still fresh counted through
  obtain rfl := mirrors.input_of_fresh fresh
  have step := Rig.step_of_word ⟨l.cpu.machine, l.gate, l.line, l.cpu.trace⟩ demand
  have ref := Coroutine.step_of_word c (by rw [machine]; exact demand)
  have opened : Channel.take l.gate =
      ((Channel.take l.input).1, { l.gate with inner := (Channel.take l.input).2 }) :=
    take_of_open through
  rw [service, still.due_eq] at ref
  cases taken : Channel.take l.input with
  | mk got input =>
    rw [opened, taken] at step
    rw [taken] at ref
    cases got with
    | error s =>
      obtain rfl : input = l.input := Endpoint.take_error taken
      by_cases waits : s = .blocked
      · obtain rfl := waits
        exact ⟨l.input, Or.inl (mirrors.wait counted running step)⟩
      · refine ⟨_, Or.inr (mirrors.advance counted running step
          (fun h => waits (Except.error.inj h)) ?_ ?_ (List.append_nil _).symm accepts mirrors.whole
          mirrors.refused ?_)⟩
        · rw [ref]
        · rw [ref, machine]
        · rw [ref]
          exact (still.due_eq _ _).symm
    | ok v =>
      have whole := Endpoint.take_ne_broken mirrors.whole
      refine ⟨_, Or.inr (mirrors.advance counted running step (Machine.turn_ne_blocked _ _) ?_ ?_
        (List.append_nil _).symm accepts ?_ ?_ ?_)⟩
      · rw [ref, machine]
      · rw [ref, machine]
      · rw [taken] at whole
        exact whole
      · intro refused
        have closed := Endpoint.close_take (mirrors.refused refused)
        rw [taken] at closed
        exact closed
      · rw [ref]
        exact (still.due_eq _ _).symm

/-- An act of the processor while it runs: either nothing happens to the machine, or the coroutine
can make the same step. -/
theorem Mirrors.actCpu_running (mirrors : Mirrors id told own l (e, c))
    (counted : l.uncounted = false) (running : l.cpu.phase = .running) :
    ∃ own', Mirrors id told own' l.actCpu.1 (e, c) ∨
      Mirrors id told own' l.actCpu.1 (endOf c.step.2.machine c.step.1, c.step.2) := by
  cases demand : l.cpu.machine.demand with
  | nothing => exact ⟨own, Or.inr (mirrors.compute counted running demand)⟩
  | room v => exact ⟨own, Or.inr (mirrors.emit counted running demand)⟩
  | word =>
    cases shut : l.gate.shut with
    | true =>
      have step := Rig.step_of_word ⟨l.cpu.machine, l.gate, l.line, l.cpu.trace⟩ demand
      rw [take_of_shut shut] at step
      exact ⟨own, Or.inl (mirrors.wait counted running step)⟩
    | false => exact mirrors.read counted running demand shut

/-- An act of the processor. -/
theorem Mirrors.actCpu (mirrors : Mirrors id told own l (e, c)) :
    ∃ own', Mirrors id told own' l.actCpu.1 (e, c) ∨
      e = none ∧ Mirrors id told own' l.actCpu.1 (endOf c.step.2.machine c.step.1, c.step.2) := by
  cases counted : l.uncounted with
  | true =>
    have counts : l.actCpu.1 = { l with emitted := l.emitted + 1, uncounted := false } := by
      obtain ⟨cpu, relay, input, line, emitted, settled, detached, uncounted, unsettled⟩ := l
      cases counted
      rfl
    have count := mirrors.orderly.count
    rw [counted] at count
    rw [counts]
    exact ⟨own, Or.inl { mirrors with orderly := { mirrors.orderly with count := count } }⟩
  | false =>
    by_cases running : l.cpu.phase = .running
    · have fresh := Processor.over?_of_running running
      have unfinished : e = none := by
        have outcome := mirrors.outcome
        rw [fresh] at outcome
        exact Option.map_eq_none_iff.mp outcome
      obtain ⟨own', still | moves⟩ := mirrors.actCpu_running counted running
      · exact ⟨own', Or.inl still⟩
      · exact ⟨own', Or.inr ⟨unfinished, moves⟩⟩
    · have rests := Processor.act_rests running l.gate l.line
      obtain ⟨stopped, stopping, acted⟩ := actCpu_of_resting counted running
      rw [acted]
      exact ⟨own, Or.inl (mirrors.rest _ rests.id rests.machine rests.outcome rests.output
        stopping)⟩

end Loop

end Intcode
