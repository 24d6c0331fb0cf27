import Intcode.Proofs.Device.Loop
import Intcode.Proofs.Processor.Closing
import Intcode.Proofs.Relay.Stopping

/-!
# What a unit leaves behind

However a unit ends, nobody who reads from it is left waiting, unless it has broken down: its output
is closed. In a loop of a processor and a device this means that the processor does not wait for a
relay that has ended.
-/

namespace Intcode

namespace Rig

variable {ι ω : Type} [Channel ι] [Channel ω]

theorem input_step (r : Rig ι ω) :
    r.step.rig.input = r.input ∨ r.step.rig.input = (Channel.take r.input).2 := by
  cases demand : r.machine.demand with
  | nothing =>
    rw [step_of_nothing r demand]
    exact .inl rfl
  | word =>
    rw [step_of_word r demand]
    obtain ⟨got, input⟩ := Channel.take r.input
    cases got <;> exact .inr rfl
  | room w =>
    rw [step_of_room r demand]
    obtain ⟨accepted, output⟩ := Channel.put r.output w
    cases accepted <;> exact .inl rfl

/-- A step waits only where a channel makes it wait. -/
theorem step_ne_blocked (r : Rig ι ω) (taken : (Channel.take r.input).1 ≠ .error .blocked)
    (put : ∀ w, (Channel.put r.output w).1 ≠ .error .blocked) :
    r.step.result ≠ .error .blocked := by
  cases demand : r.machine.demand with
  | nothing =>
    rw [step_of_nothing r demand]
    exact Machine.turn_ne_blocked _ _
  | word =>
    rw [step_of_word r demand]
    revert taken
    obtain ⟨got, input⟩ := Channel.take r.input
    cases got with
    | ok v => exact fun _ => Machine.turn_ne_blocked _ _
    | error s => exact fun taken waits => taken (congrArg _ (Except.error.inj waits))
  | room w =>
    rw [step_of_room r demand]
    have accepted := put w
    revert accepted
    obtain ⟨accepted, output⟩ := Channel.put r.output w
    cases accepted with
    | ok u => exact fun _ => Machine.turn_ne_blocked _ _
    | error s => exact fun accepted waits => accepted (congrArg _ (Except.error.inj waits))

end Rig

namespace Loop

theorem closed_take (g : Gate Wire) : (Channel.take g).2.inner.closed = g.inner.closed := by
  cases shut : g.shut with
  | true => rw [take_of_shut shut]
  | false =>
    rw [take_of_open shut]
    exact Wire.closed_take g.inner

section Acting

variable {ι τ : Type} [Channel ι] {l : Loop ι τ}

theorem moves_of_counted (counted : l.uncounted = false) :
    l.actCpu.2 = (l.cpu.act l.gate l.line).event.isMove := by
  obtain ⟨cpu, relay, input, line, emitted, settled, detached, uncounted, unsettled⟩ := l
  cases counted
  rfl

/-- An act of the processor may stop the relay and does nothing else to it. -/
theorem relay_actCpu (l : Loop ι τ) :
    l.actCpu.1.relay.id = l.relay.id ∧ l.actCpu.1.relay.phase = l.relay.phase ∧
      l.actCpu.1.detached = l.detached := by
  cases counted : l.uncounted with
  | true =>
    obtain ⟨cpu, relay, input, line, emitted, settled, detached, uncounted, unsettled⟩ := l
    cases counted
    exact ⟨rfl, rfl, rfl⟩
  | false =>
    rw [actCpu_of_counted counted]
    obtain ⟨cpu, gate, line, event⟩ := l.cpu.act l.gate l.line
    cases event <;> exact ⟨rfl, rfl, rfl⟩

end Acting

variable {τ : Type} {id : String} {l : Loop Wire τ}

def course (l : Loop Wire τ) : Relay.Course τ Wire Wire :=
  { relay := l.relay, input := l.line, output := l.input }

/-- A loop whose relay has closed the input of the processor before it was gone, unless the device
has crashed it, and has let the processor go when it ended. -/
structure Held (id : String) (l : Loop Wire τ) : Prop where
  started : l.cpu.phase ≠ .ready
  named : l.relay.id = id
  closed : l.relay.phase.isGone = true →
    l.input.closed = true ∨ l.relay.phase.over? = some (.error (.relayCrashed id))
  freed : ∀ o, l.relay.phase = .ended o → l.detached = true

theorem held_load (id : String) (p : Program) (input : Wire) (device : τ) (debug : Bool) :
    Held (id ++ "-device") (load id p input device debug) :=
  ⟨nofun, rfl, nofun, nofun⟩

/-- An act of the processor neither opens nor closes its input. -/
theorem closed_actCpu (l : Loop Wire τ) : l.actCpu.1.input.closed = l.input.closed := by
  cases counted : l.uncounted with
  | true =>
    obtain ⟨cpu, relay, input, line, emitted, settled, detached, uncounted, unsettled⟩ := l
    cases counted
    rfl
  | false =>
    rw [actCpu_of_counted counted]
    show (l.cpu.act l.gate l.line).input.inner.closed = l.gate.inner.closed
    by_cases running : l.cpu.phase = .running
    · rw [Processor.act_of_running running]
      rcases Rig.input_step ⟨l.cpu.machine, l.gate, l.line, l.cpu.trace⟩ with same | taken
      · exact congrArg (fun g : Gate Wire => g.inner.closed) same
      · exact (congrArg (fun g : Gate Wire => g.inner.closed) taken).trans (closed_take l.gate)
    · rw [(Processor.act_rests running l.gate l.line).input]

theorem Held.actCpu (held : Held id l) : Held id l.actCpu.1 := by
  obtain ⟨named, phase, detached⟩ := relay_actCpu l
  refine ⟨?_, named.trans held.named, ?_, ?_⟩
  · cases counted : l.uncounted with
    | true =>
      obtain ⟨cpu, relay, input, line, emitted, settled, detached, uncounted, unsettled⟩ := l
      cases counted
      exact held.started
    | false =>
      rw [actCpu_of_counted counted]
      exact Processor.started_act held.started l.gate l.line
  · rw [phase, closed_actCpu]
    exact held.closed
  · rw [phase, detached]
    exact held.freed

/-- A processor that has not ended has something to do once the relay has ended well. -/
theorem Held.moves (held : Held id l) {o : Relay.Outcome} (ended : l.relay.outcome? = some o)
    (whole : o ≠ .error (.relayCrashed id)) (unfinished : l.cpu.outcome? = none) :
    l.actCpu.2 = true := by
  have phase := Relay.phase_of_outcome ended
  have closed : l.input.closed = true := by
    refine (held.closed (by rw [phase]; rfl)).resolve_right ?_
    rw [phase]
    exact fun crashed => whole (Option.some.inj crashed)
  have through : l.gate.shut = false := by
    show (decide (l.settled < l.emitted) && !l.detached) = false
    rw [held.freed o phase, Bool.not_true, Bool.and_false]
  cases counted : l.uncounted with
  | true =>
    obtain ⟨cpu, relay, input, line, emitted, settled, detached, uncounted, unsettled⟩ := l
    cases counted
    rfl
  | false =>
    rw [moves_of_counted counted]
    by_cases running : l.cpu.phase = .running
    · rw [Processor.act_of_running running]
      refine Processor.isMove_eventOf _ (Rig.step_ne_blocked _ ?_ ?_)
      · rw [take_of_open through]
        exact Wire.take_prompt closed
      · exact Wire.put_prompt l.line
    · exact Processor.moves_of_resting held.started running unfinished _ _

section Device

variable [Device τ]

/-- An act of the relay that has settled the value which it has handled, told by its course. -/
theorem actRelay_of_settled (settled : l.unsettled = false) :
    l.actRelay.1.cpu = l.cpu ∧ l.actRelay.1.relay = l.course.act.relay ∧
      l.actRelay.1.input = l.course.act.output ∧
      l.actRelay.1.detached =
        (l.detached || (l.relay.act l.line l.input).event == .departed) := by
  obtain ⟨relay, output⟩ := l.course.act_eq
  rw [relay, output]
  obtain ⟨cpu, relay, input, line, emitted, settled', detached, uncounted, unsettled⟩ := l
  cases settled
  exact ⟨rfl, rfl, rfl, rfl⟩

theorem departed_of_leaving {o : Relay.Outcome} (leaving : l.relay.phase = .leaving o) :
    (l.relay.act l.line l.input).event = .departed := by
  obtain ⟨cpu, ⟨id, device, stopped, interval, phase, joined⟩, input, line⟩ := l
  cases leaving
  rfl

theorem Held.actRelay (held : Held id l) : Held id l.actRelay.1 := by
  cases settled : l.unsettled with
  | true =>
    obtain ⟨cpu, relay, input, line, emitted, settled', detached, uncounted, unsettled⟩ := l
    cases settled
    exact { held with }
  | false =>
    obtain ⟨cpu, relay, input, detached⟩ := actRelay_of_settled settled
    have keeps := l.course.act_keeps
    refine ⟨?_, ?_, ?_, ?_⟩
    · rw [cpu]
      exact held.started
    · rw [relay]
      exact keeps.id.trans held.named
    · rw [relay, input]
      intro gone
      by_cases crashed : l.relay.phase.over? = some (.error (.relayCrashed id))
      · exact .inr (Relay.Course.over_next (c := l.course) crashed .act)
      · refine (Relay.Course.act_closes Wire.seals_closed ?_ gone).imp_right fun broken => ?_
        · exact fun gone => (held.closed gone).resolve_right crashed
        · rw [Relay.Course.act_breaks broken, ← held.named]
          rfl
    · rw [relay, detached]
      intro o ended
      rcases keeps.phase with busy | same | ⟨o', leaving, -⟩
      · rw [ended] at busy
        cases busy
      · rw [held.freed o (same.symm.trans ended)]
        rfl
      · rw [departed_of_leaving leaving]
        exact Bool.or_true _

theorem held_of_reaches {p : Program} {input : Wire} {device : τ} {debug : Bool}
    (reached : Reaches (load id p input device debug) l) : Held (id ++ "-device") l := by
  induction reached with
  | refl => exact held_load id p input device debug
  | act i _ here ih =>
    simp only [System.act]
    split
    · exact ih.actCpu
    · exact ih.actRelay

end Device

end Loop

/-- A processor or a relay that has ended has closed its output, unless one of its acts broke down.
Who reads a closed wire gets what is queued and then, every time, that there is no connection. So
the processor of a loop over a wire has something to do after the relay has ended, unless the device
has crashed the relay. -/
theorem ended_units_have_closed {ν ι ω τ : Type} [Channel ι] [Channel ω] [Device τ]
    {shut : ω → Prop} (seals : Channel.Seals shut) :
    (∀ id p debug (input : ι) (output : ω) (turns : List (Processor.Turn ν)) o,
      let fresh := Processor.Course.load id p debug input output
      (fresh.run turns).processor.outcome? = some o →
      shut (fresh.run turns).output ∨
        o = .error (.processorCrashed id) ∧
          ∃ before after, turns = before ++ .act :: after ∧ (fresh.run before).BreaksDown) ∧
    (∀ id (device : τ) (input : ι) (output : ω) (turns : List Relay.Turn) o,
      let fresh := Relay.Course.load id device input output
      (fresh.run turns).relay.outcome? = some o →
      shut (fresh.run turns).output ∨
        o = .error (.relayCrashed id) ∧
          ∃ before after, turns = before ++ .act :: after ∧ (fresh.run before).BreaksDown) ∧
    (∀ (w : Wire) n, w.closed = true →
      w.reads n = (w.toList.take n).map .ok ++
        .replicate (n - w.toList.length) (.error (.fault .notConnected))) ∧
    ∀ id p (input : Wire) (device : τ) debug l o,
      Reaches (Loop.load id p input device debug) l → l.relay.outcome? = some o →
      o ≠ .error (.relayCrashed (id ++ "-device")) → l.cpu.outcome? = none → l.actCpu.2 = true := by
  refine ⟨?_, ?_, fun w n closed => Wire.reads_of_closed n closed, ?_⟩
  · intro id p debug input output turns o fresh ended
    have gone := Processor.isGone_of_outcome (by rw [ended]; nofun)
    refine (Processor.Course.run_closes seals id p debug input output turns gone).imp_right ?_
    rintro ⟨finished, broken⟩
    exact ⟨Option.some.inj ((Processor.over?_of_ended ended).symm.trans finished), broken⟩
  · intro id device input output turns o fresh ended
    have phase := Relay.phase_of_outcome ended
    have gone : (fresh.run turns).relay.phase.isGone = true := by
      rw [phase]
      rfl
    refine (Relay.Course.run_closes seals id device input output turns gone).imp_right ?_
    rintro ⟨finished, broken⟩
    exact ⟨Option.some.inj ((congrArg Relay.Phase.over? phase).symm.trans finished), broken⟩
  · intro id p input device debug l o reached ended whole unfinished
    exact (Loop.held_of_reaches reached).moves ended whole unfinished

def saying : Program := ⟨#[104, 5, 99]⟩

def saidAfter (n : Nat) : Processor.Course Unit Wire Wire :=
  (Processor.Course.load "A" saying false {} {}).run (.start :: .replicate n .act)

/-- A loop over a wire that is closed, so that the relay ends at its first reply. -/
def refusing (n : Nat) : Loop Wire Passing :=
  settle n (Loop.load "main" Loop.echo { closed := true } {} false)

def relayed : Relay.Course Passing Wire Wire :=
  Relay.Course.passing (Relay.Course.twoPuts ++ Relay.Course.fromStop)

/-- A processor that halts, a relay that is stopped, and a loop whose relay ends first. -/
theorem orderly_units_have_closed :
    ((saidAfter 6).processor.outcome? = some (.ok (saidAfter 6).processor.machine.haltState) ∧
      (saidAfter 6).output.closed = true) ∧
    (relayed.relay.outcome? = some (.ok ()) ∧ relayed.output.closed = true ∧
      relayed.output.reads 3 = [.ok 7, .ok 8, .error (.fault .notConnected)]) ∧
    (refusing 11).relay.outcome? = some (.error .notConnected) ∧
    (refusing 11).cpu.outcome? = none ∧ (refusing 11).actCpu.2 = true := by
  obtain ⟨processor, relay, reads, loop⟩ :=
    ended_units_have_closed (ν := Unit) (ι := Wire) (τ := Passing) Wire.seals_closed
  have halted : (saidAfter 6).processor.outcome? =
      some (.ok (saidAfter 6).processor.machine.haltState) := by decide +kernel
  have relayEnded : relayed.relay.outcome? = some (.ok ()) := by decide +kernel
  have refused : (refusing 11).relay.outcome? = some (.error .notConnected) := by decide +kernel
  have unfinished : (refusing 11).cpu.outcome? = none := by decide +kernel
  have saidClosed : (saidAfter 6).output.closed = true :=
    (processor "A" saying false {} {} _ _ halted).resolve_right fun broken => nomatch broken.1
  have relayClosed : relayed.output.closed = true :=
    (relay "R" {} {} {} _ _ relayEnded).resolve_right fun broken => nomatch broken.1
  have contents : relayed.output.toList = [7, 8] := by decide +kernel
  refine ⟨⟨halted, saidClosed⟩, ⟨relayEnded, relayClosed, ?_⟩, refused, unfinished, ?_⟩
  · rw [reads _ 3 relayClosed, contents]
    rfl
  · exact loop "main" Loop.echo _ _ false _ _ (reaches_settle 11 _) refused nofun unfinished

structure Fragile where

instance : Device Fragile where
  respond d _ := { device := d, answer := .crash }

def cutOff (n : Nat) : Processor.Course Unit Endpoint Wire :=
  (Processor.Course.load "A" ⟨#[3, 0, 99]⟩ false .broken {}).run (.start :: .replicate n .act)

def shattered (n : Nat) : Relay.Course Fragile Wire Wire :=
  (Relay.Course.load "R" {} {} {}).run (.input (.put 7) :: .start :: .replicate n .act)

def shatteredLoop : Loop Wire Fragile := settle 12 (Loop.load "main" Loop.echo {} {} false)

/-- Units that have broken down leave their outputs open: who reads there waits. -/
theorem broken_units_leave_open :
    ((cutOff 5).processor.outcome? = some (.error (.processorCrashed "A")) ∧
      (cutOff 5).output.closed = false ∧
      (Channel.take (cutOff 5).output).1 = .error .blocked) ∧
    ((shattered 4).relay.outcome? = some (.error (.relayCrashed "R")) ∧
      (shattered 4).output.closed = false ∧
      (Channel.take (shattered 4).output).1 = .error .blocked) ∧
    Reaches (Loop.load "main" Loop.echo {} {} false) shatteredLoop ∧
    shatteredLoop.relay.outcome? = some (.error (.relayCrashed "main-device")) ∧
    shatteredLoop.cpu.outcome? = none ∧ shatteredLoop.actCpu.2 = false ∧
    shatteredLoop.actRelay.2 = false := by
  refine ⟨⟨?_, ?_, ?_⟩, ⟨?_, ?_, ?_⟩, reaches_settle 12 _, ?_, ?_, ?_, ?_⟩
  all_goals decide +kernel

end Intcode
