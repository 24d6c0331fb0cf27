import Intcode.Proofs.Device.Mirror

/-!
# Acts of a loop's relay

What the relay does makes good what is due: the coroutine stays where it is. The relay stops only
after the processor, and not before it has handled everything, unless a reply is refused.
-/

namespace Intcode

namespace Loop

variable {τ : Type} [Device τ] {id : String} {told : List Word} {own : Endpoint}
  {l : Loop Endpoint τ} {run : Option (Except Stop HaltState) × Coroutine Endpoint τ}

/-- The relay goes on to another phase with nothing in its hand before and after. -/
theorem Mirrors.turn (mirrors : Mirrors id told own l run) (next : Relay.Phase) (detached : Bool)
    (hand : l.relay.phase.hand = []) (hand' : next.hand = [])
    (refusal : next.refusal? = l.relay.phase.refusal?) (closes : next.closes = l.relay.phase.closes)
    (stopping : next.isStopping = true → l.cpu.over? ≠ none)
    (backlog : ∀ left, next.left? = some left → left = l.line.toList.length)
    (finished : next.over? = some (.ok ()) → l.cpu.over? ≠ none ∧ l.line.toList = [])
    (gone : detached = true → ∃ o, next = .ended o) :
    Mirrors id told own { l with relay := { l.relay with phase := next }, detached } run := by
  have orderly := mirrors.orderly
  refine ⟨⟨?_, orderly.accepts, orderly.stopped, stopping, backlog, finished, gone, orderly.steady⟩,
    mirrors.named, mirrors.whole, ?_, ?_, mirrors.outcome, mirrors.machine, ?_⟩
  · simp only [hand', ← hand]
    exact orderly.count
  · simp only [closes]
    exact mirrors.input
  · simp only [refusal]
    exact mirrors.refused
  · simp only [mirrors.service, due, handled_of_hand hand, handled_of_hand hand', refusal]

/-- The relay takes a value from the line. -/
theorem Mirrors.take (mirrors : Mirrors id told own l run) {line : Wire} {v : Word}
    {left : Option Nat} (hand : l.relay.phase.hand = []) (running : l.relay.phase.over? = none)
    (next : l.line.toList = v :: line.toList) (same : line.closed = l.line.closed)
    (stopping : left ≠ none → l.cpu.over? ≠ none)
    (backlog : ∀ n, left = some n → n = line.toList.length) :
    Mirrors id told own
      { l with relay := { l.relay with phase := .holding v left }, line, detached := false }
      run := by
  have orderly := mirrors.orderly
  have refusal := Relay.Phase.refusal?_of_running running
  have input : l.input = own := mirrors.input_of_unfinished (by rw [running]; nofun)
  refine ⟨⟨?_, ?_, orderly.stopped, ?_, backlog, nofun, nofun, orderly.steady⟩, mirrors.named,
    mirrors.whole, input, fun refused => absurd rfl refused, mirrors.outcome, mirrors.machine, ?_⟩
  · have count := orderly.count
    rw [hand, next] at count
    simp only [List.length_nil, List.length_cons] at count
    simp only [Relay.Phase.hand, List.length_singleton]
    omega
  · simp only [same]
    exact orderly.accepts
  · intro noticed
    exact stopping (Option.isSome_iff_ne_none.mp noticed)
  · rw [mirrors.service, due, due, handled_of_hand hand, next, refusal]
    rfl

/-- The relay handles the value in its hand, or the first half of that: what the rest of it comes to
is the same as before. -/
theorem Mirrors.handle (mirrors : Mirrors id told own l run) {next : Relay.Phase} {device : τ}
    {input : Endpoint} {told' : List Word} {unsettled : Bool} (settled : l.unsettled = false)
    (running : l.relay.phase.over? = none)
    (one : unsettled.toNat + next.hand.length = l.relay.phase.hand.length)
    (backlog : ∀ left, next.left? = some left → l.relay.phase.left? = some left)
    (stopping : next.isStopping = true → l.relay.phase.isStopping = true)
    (unfinished : next.over? ≠ some (.ok ())) (steady : Device.Steady device)
    (whole : input ≠ .broken) (refused : next.refusal? ≠ none → Channel.close input = input)
    (same : handled ⟨input, device, told', next.refusal?⟩ next =
      handled ⟨l.input, l.relay.device, told, none⟩ l.relay.phase) :
    Mirrors id told' input
      { l with
        relay := { l.relay with device, phase := next }
        input
        unsettled
        detached := false } run := by
  have orderly := mirrors.orderly
  have refusal := Relay.Phase.refusal?_of_running running
  have input' : l.input = own := mirrors.input_of_unfinished (by rw [running]; nofun)
  refine ⟨⟨?_, orderly.accepts, orderly.stopped, fun h => orderly.stopping (stopping h),
    fun left noted => orderly.backlog left (backlog left noted),
    fun finished => absurd finished unfinished, nofun, steady⟩, mirrors.named, whole, ?_, refused,
    mirrors.outcome, mirrors.machine, ?_⟩
  · have count := orderly.count
    rw [settled, Bool.toNat_false] at count
    dsimp only
    omega
  · simp only [Relay.Phase.closes_of_unfinished unfinished]
    rfl
  · rw [mirrors.service, due, due, refusal, ← input', ← same]

/-- The relay has handled the value in its hand, to which there is no reply, or whose reply was
accepted. -/
theorem Mirrors.resume (mirrors : Mirrors id told own l run) {device : τ} {input : Endpoint}
    {told' : List Word} {left : Option Nat} (settled : l.unsettled = false)
    (running : l.relay.phase.over? = none) (one : l.relay.phase.hand.length = 1)
    (noted : l.relay.phase.left? = left) (steady : Device.Steady device) (whole : input ≠ .broken)
    (same : ⟨input, device, told', none⟩ =
      handled ⟨l.input, l.relay.device, told, none⟩ l.relay.phase) :
    Mirrors id told' input
      { l with
        relay := { l.relay with device, phase := Relay.resume left }
        input
        unsettled := true
        detached := false } run := by
  have unended := Relay.Phase.over?_resume left
  have refusal := Relay.Phase.refusal?_of_running unended
  refine mirrors.handle settled running ?_ ?_ ?_ (by rw [unended]; nofun) steady whole
    (fun refused => absurd refusal refused) ?_
  · rw [Relay.Phase.hand_resume, one]
    rfl
  · intro n
    rw [Relay.Phase.left?_resume, noted]
    exact fun counted => counted
  · rw [Relay.Phase.isStopping_resume, Option.isSome_iff_exists]
    rintro ⟨n, counted⟩
    exact Relay.Phase.isStopping_of_left (noted.trans counted)
  · rw [handled_of_hand (Relay.Phase.hand_resume left), refusal]
    exact same

/-- The relay closes the input. -/
theorem Mirrors.leave (mirrors : Mirrors id told own l run) {o : Relay.Outcome}
    (closing : l.relay.phase = .closing o) :
    Mirrors id told own
      { l with
        relay := { l.relay with phase := .leaving o }
        input := Channel.close l.input
        detached := false } run := by
  have orderly := mirrors.orderly
  have input : l.input = own := by
    rw [mirrors.input, closing]
    rfl
  have refused := mirrors.refused
  have service := mirrors.service
  have count := orderly.count
  have finished := orderly.finished
  simp only [due, closing] at refused service count finished
  refine ⟨⟨count, orderly.accepts, orderly.stopped, ?_, ?_, finished, ?_, orderly.steady⟩,
    mirrors.named, mirrors.whole, ?_, refused, mirrors.outcome, mirrors.machine, service⟩
  · intro noticed
    cases noticed
  · intro left noted
    cases noted
  · intro gone
    cases gone
  · rw [input]
    cases o with
    | ok u => rfl
    | error f => exact refused (Option.some_ne_none _)

/-- The relay counts a value that it has handled. -/
theorem Mirrors.settle (mirrors : Mirrors id told own l run) (unsettled : l.unsettled = true) :
    Mirrors id told own { l with settled := l.settled + 1, unsettled := false } run := by
  have count := mirrors.orderly.count
  rw [unsettled, Bool.toNat_true] at count
  exact { mirrors with orderly := { mirrors.orderly with count := count } }

/-- An act that tells the device nothing. -/
theorem Mirrors.silent (mirrors : Mirrors id told own l run) :
    Mirrors id (told ++ []) own l run := by
  rw [List.append_nil]
  exact mirrors

def inPhase (l : Loop Endpoint τ) (phase : Relay.Phase) : Loop Endpoint τ :=
  { l with relay := { l.relay with phase }, detached := false, unsettled := false }

/-- The relay looks at the stop signal. -/
theorem Mirrors.look (mirrors : Mirrors id told own (l.inPhase .checking) run) :
    Mirrors id told own (l.inPhase .checking).actRelay.1 run := by
  have acted : (l.inPhase .checking).actRelay.1 =
      l.inPhase (if l.relay.stopped then .tallying else .polling) := by
    obtain ⟨cpu, ⟨rid, device, stopped, interval, phase, joined⟩, input, line, emitted, settled,
      detached, uncounted, unsettled⟩ := l
    cases stopped <;> rfl
  rw [acted]
  cases stopped : l.relay.stopped with
  | true =>
    exact mirrors.turn .tallying false rfl rfl rfl rfl
      (fun _ => mirrors.orderly.stopped stopped) nofun nofun nofun
  | false => exact mirrors.turn .polling false rfl rfl rfl rfl nofun nofun nofun nofun

/-- The relay looks for a value. If the line is closed and empty, the processor is over. -/
theorem Mirrors.poll (mirrors : Mirrors id told own (l.inPhase .polling) run) :
    Mirrors id told own (l.inPhase .polling).actRelay.1 run := by
  simp only [Loop.actRelay, inPhase, Relay.act, Bool.false_eq_true, if_false]
  cases contents : l.line.toList with
  | nil =>
    rw [Wire.poll_of_nil contents]
    cases closed : l.line.closed with
    | false => exact mirrors.turn .checking false rfl rfl rfl rfl nofun nofun nofun nofun
    | true =>
      refine mirrors.turn (.closing (.ok ())) false rfl rfl rfl rfl nofun nofun ?_ nofun
      refine fun _ => ⟨fun fresh => ?_, contents⟩
      have accepts : l.line.closed = false := mirrors.orderly.accepts fresh
      rw [accepts] at closed
      cases closed
  | cons v queued =>
    obtain ⟨line, polled, rfl, same⟩ := Wire.poll_of_cons contents
    rw [polled]
    exact mirrors.take rfl rfl contents same nofun nofun

/-- The relay takes one of the values that were queued when it noticed the stop. -/
theorem Mirrors.flush {left : Nat}
    (mirrors : Mirrors id told own (l.inPhase (.flushing left)) run) :
    Mirrors id told own (l.inPhase (.flushing left)).actRelay.1 run := by
  have done := mirrors.orderly.stopping rfl
  have enough : left = l.line.toList.length := mirrors.orderly.backlog left rfl
  cases left with
  | zero =>
    refine mirrors.turn (.closing (.ok ())) false rfl rfl rfl rfl nofun nofun ?_ nofun
    exact fun _ => ⟨done, List.length_eq_zero_iff.mp enough.symm⟩
  | succ left =>
    simp only [Loop.actRelay, inPhase, Relay.act, Bool.false_eq_true, if_false]
    cases contents : l.line.toList with
    | nil =>
      rw [contents, List.length_nil] at enough
      omega
    | cons v queued =>
      obtain ⟨line, polled, rfl, same⟩ := Wire.poll_of_cons contents
      rw [polled]
      refine mirrors.take rfl rfl contents same (fun _ => done) ?_
      rintro n ⟨⟩
      rw [contents, List.length_cons] at enough
      exact Nat.succ.inj enough

/-- The relay tells a value to its device. -/
theorem Mirrors.tell {v : Word} {left : Option Nat}
    (mirrors : Mirrors id told own (l.inPhase (.holding v left)) run) :
    ∃ own', Mirrors id (told ++ [v]) own' (l.inPhase (.holding v left)).actRelay.1 run := by
  have whole : l.input ≠ .broken := by
    have input : l.input = own := mirrors.input
    rw [input]
    exact mirrors.whole
  have steady : Device.Steady (Device.respond l.relay.device v).device :=
    mirrors.orderly.steady.next v
  have standing : (Device.respond l.relay.device v).answer ≠ .crash := mirrors.orderly.steady [] v
  cases response : Device.respond l.relay.device v with
  | mk device said hangsUp warnings =>
    rw [response] at steady standing
    simp only [Loop.actRelay, inPhase, Relay.act, Bool.false_eq_true, if_false, response]
    refine ⟨if hangsUp then Channel.close l.input else l.input, ?_⟩
    have whole' : (if hangsUp then Channel.close l.input else l.input) ≠ .broken := by
      cases hangsUp with
      | true => exact Endpoint.close_ne_broken whole
      | false => exact whole
    cases said with
    | crash => exact absurd rfl standing
    | reply w =>
      refine mirrors.handle rfl rfl rfl (fun _ noted => noted) (fun noticed => noticed) nofun steady
        whole' (fun refused => absurd rfl refused) ?_
      simp only [inPhase, handled, Service.serve, response]
      rfl
    | silent =>
      refine mirrors.resume rfl rfl rfl rfl steady whole' ?_
      simp only [inPhase, handled, Service.serve, response]
      rfl

/-- The relay puts a reply, which may be refused. -/
theorem Mirrors.put {w : Word} {left : Option Nat}
    (mirrors : Mirrors id told own (l.inPhase (.answering w left)) run) :
    ∃ own', Mirrors id told own' (l.inPhase (.answering w left)).actRelay.1 run := by
  have whole : l.input ≠ .broken := by
    have input : l.input = own := mirrors.input
    rw [input]
    exact mirrors.whole
  have whole' := Endpoint.put_ne_broken whole w
  cases given : Channel.put l.input w with
  | mk accepted input =>
    rw [given] at whole'
    simp only [Loop.actRelay, inPhase, Relay.act, Bool.false_eq_true, if_false, given]
    refine ⟨input, ?_⟩
    cases accepted with
    | ok u =>
      refine mirrors.resume rfl rfl rfl rfl mirrors.orderly.steady whole' ?_
      simp only [inPhase, handled, Service.answer, given]
    | error s =>
      obtain ⟨rfl, closed⟩ := Endpoint.put_refused whole given
      refine mirrors.handle rfl rfl rfl ?_ ?_ ?_ mirrors.orderly.steady whole' (fun _ => closed) ?_
      · intro left noted
        cases noted
      · intro noticed
        cases noticed
      · intro finished
        cases finished
      · simp only [inPhase, handled, Service.answer, given]
        rfl

/-- An act of the relay, while it has nothing to count. -/
theorem Mirrors.actRelay_settled (mirrors : Mirrors id told own l run)
    (counted : l.unsettled = false) :
    ∃ own', Mirrors id (told ++ l.tells 1) own' l.actRelay.1 run := by
  by_cases gone : l.detached = true
  · obtain ⟨o, ended⟩ := mirrors.orderly.detached gone
    obtain ⟨cpu, ⟨rid, device, stopped, interval, phase, joined⟩, input, line, emitted, settled,
      detached, uncounted, unsettled⟩ := l
    cases counted
    cases gone
    cases ended
    exact ⟨own, mirrors.silent⟩
  · have shape : l = l.inPhase l.relay.phase := by
      obtain ⟨cpu, relay, input, line, emitted, settled, detached, uncounted, unsettled⟩ := l
      cases counted
      cases Bool.eq_false_iff.mpr gone
      rfl
    revert mirrors
    rw [shape]
    generalize l.relay.phase = phase
    intro mirrors
    have orderly := mirrors.orderly
    cases phase with
    | ready => exact ⟨own, mirrors.silent⟩
    | ended o => exact ⟨own, mirrors.silent⟩
    | leaving o =>
      exact ⟨own, (mirrors.turn (.ended o) true rfl rfl rfl (by cases o <;> rfl) nofun nofun
        orderly.finished fun _ => ⟨o, rfl⟩).silent⟩
    | closing o => exact ⟨own, (mirrors.leave rfl).silent⟩
    | checking => exact ⟨own, mirrors.look.silent⟩
    | polling => exact ⟨own, mirrors.poll.silent⟩
    | tallying =>
      refine ⟨own, (mirrors.turn (.flushing _) false rfl rfl rfl rfl
        (fun _ => orderly.stopping rfl) ?_ nofun nofun).silent⟩
      rintro left ⟨⟩
      exact Wire.pending_eq l.line
    | flushing left => exact ⟨own, mirrors.flush.silent⟩
    | holding v left => exact mirrors.tell
    | answering w left =>
      obtain ⟨own', put⟩ := mirrors.put
      exact ⟨own', put.silent⟩

/-- An act of the relay. -/
theorem Mirrors.actRelay (mirrors : Mirrors id told own l run) :
    ∃ own', Mirrors id (told ++ l.tells 1) own' l.actRelay.1 run := by
  cases counted : l.unsettled with
  | false => exact mirrors.actRelay_settled counted
  | true =>
    have quiet : l.tells 1 = [] := if_pos (Or.inr counted)
    have acted : l.actRelay.1 = { l with settled := l.settled + 1, unsettled := false } := by
      obtain ⟨cpu, relay, input, line, emitted, settled, detached, uncounted, unsettled⟩ := l
      cases counted
      rfl
    rw [acted, quiet, List.append_nil]
    exact ⟨own, mirrors.settle counted⟩

end Loop

end Intcode
