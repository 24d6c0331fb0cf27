import Intcode.Proofs.Device.Running
import Intcode.Proofs.Processor.Closing
import Intcode.Proofs.Relay.Conservation

/-!
# The ledger of a device loop

What the two units of a loop do is written down, act by act: what the processor says on the line,
what the relay takes from there and tells to the device, how the device has handled it, and what
was counted. The ledger balances at any time: a value that the device has handled is settled once,
and what is neither settled nor about to be is still on the line or in the hand of the relay, or has
brought the relay down.
-/

namespace Intcode

/-- What a device replies to some values and then to some more. -/
theorem Device.replies_append {τ : Type} [Device τ] (d : τ) (told later : List Word) :
    replies d (told ++ later) = replies d told ++ replies (after d told) later := by
  induction told generalizing d with
  | nil => rfl
  | cons v told ih =>
    rw [List.cons_append, replies, replies, ih, List.append_assoc]
    rfl

namespace Loop

inductive Deed where
  /-- The processor has put a value on the line. -/
  | said (v : Word)
  /-- The processor has read its input, or tried to. -/
  | read
  /-- The relay has taken a value from the line. -/
  | took (v : Word)
  /-- The device was told a value. -/
  | told (v : Word)
  /-- The input was closed, by the device or by the relay. -/
  | closed
  /-- The device gave no reply. -/
  | swallowed
  /-- A reply was put on the input, which has accepted it or not. -/
  | answered (w : Word) (accepted : Bool)
  /-- The device broke down. -/
  | broke
  /-- The input broke down when a reply was put on it. -/
  | choked (w : Word)
  | settled
  | detached
  /-- Somebody else has used the input. -/
  | used (use : Use)
  deriving DecidableEq, Repr

namespace Deed

def said? : Deed → Option Word
  | said v => some v
  | _ => none

def took? : Deed → Option Word
  | took v => some v
  | _ => none

def told? : Deed → Option Word
  | told v => some v
  | _ => none

def reply? : Deed → Option Word
  | answered w _ | choked w => some w
  | _ => none

def use? : Deed → Option Use
  | read => some .take
  | closed => some .close
  | answered w _ | choked w => some (.put w)
  | used use => some use
  | _ => none

def isFinish : Deed → Bool
  | swallowed | answered .. => true
  | _ => false

/-- The processor or somebody else has done it, and not the relay. -/
def isOutside : Deed → Bool
  | said _ | read | used _ => true
  | _ => false

/-- The relay was brought down by a value. -/
def isFall : Deed → Bool
  | broke | choked _ => true
  | _ => false

/-- It may open the gate to the processor. -/
def isRelease : Deed → Bool
  | settled | detached => true
  | _ => false

end Deed

variable {ι τ : Type} [Channel ι]

def reads (l : Loop ι τ) : Bool :=
  match l.cpu.phase with
  | .running => !l.uncounted && l.cpu.machine.demand == .word
  | _ => false

def cpuDeeds (l : Loop ι τ) : List Deed :=
  if l.uncounted then []
  else if l.reads then (if l.gate.shut then [] else [.read])
  else (l.cpu.act l.gate l.line).event.words.map .said

def finish : Answer → List Deed
  | .reply _ => []
  | .silent => [.swallowed]
  | .crash => [.broke]

def relayDeeds [Device τ] (l : Loop ι τ) : List Deed :=
  if l.unsettled then [.settled]
  else
    match l.relay.phase with
    | .polling | .flushing (_ + 1) =>
      match (Channel.poll l.line).1 with
      | .ok (some v) => [.took v]
      | .ok none | .error _ => []
    | .holding v _ =>
      let r := Device.respond l.relay.device v
      .told v :: finish r.answer ++ if r.hangsUp then [.closed] else []
    | .answering w _ =>
      match (Channel.put l.input w).1 with
      | .ok () => [.answered w true]
      | .error .crashed => [.choked w]
      | .error _ => [.answered w false]
    | .closing _ => [.closed]
    | .leaving _ => [.detached]
    | .ready | .checking | .tallying | .flushing 0 | .ended _ => []

def saids (h : List Deed) : List Word := h.filterMap Deed.said?

def tooks (h : List Deed) : List Word := h.filterMap Deed.took?

def tolds (h : List Deed) : List Word := h.filterMap Deed.told?

def replies (h : List Deed) : List Word := h.filterMap Deed.reply?

def used (input : ι) (h : List Deed) : ι := (h.filterMap Deed.use?).foldl Use.on input

/-- How a loop stands to what has happened in it. -/
structure Balances [Device τ] (device : τ) (input : ι) (h : List Deed) (l : Loop ι τ) : Prop where
  emitted : l.emitted + l.uncounted.toNat = (saids h).length
  line : tooks h ++ l.line.toList = saids h
  hand : tolds h ++ l.relay.phase.untold = tooks h
  handled : (tolds h).length =
    h.countP Deed.isFinish + l.relay.phase.reply.length + h.countP Deed.isFall
  finished : h.countP Deed.isFinish = h.count .settled + l.unsettled.toNat
  settled : l.settled = h.count .settled
  informed : l.relay.device = Device.after device (tolds h)
  replied : replies h ++ l.relay.phase.reply = Device.replies device (tolds h)
  input : l.input = used input h
  detached : l.detached = true ↔ .detached ∈ h
  fallen : 0 < h.countP Deed.isFall → l.relay.phase.over? ≠ none
  gone : l.detached = true ↔ ∃ o, l.relay.phase = .ended o

variable [Device τ] {device : τ} {input : ι} {h : List Deed} {l : Loop ι τ}

theorem balances_load (id : String) (p : Program) (input : ι) (device : τ) (debug : Bool) :
    Balances device input [] (load id p input device debug) :=
  ⟨rfl, rfl, rfl, rfl, rfl, rfl, rfl, rfl, rfl, ⟨nofun, nofun⟩, nofun, ⟨nofun, nofun⟩⟩

/-- What an act writes down of a loop says what it has changed. -/
structure Enters (l : Loop ι τ) (ds : List Deed) (l' : Loop ι τ) : Prop where
  emitted : l'.emitted + l'.uncounted.toNat = l.emitted + l.uncounted.toNat + (saids ds).length
  line : tooks ds ++ l'.line.toList = l.line.toList ++ saids ds
  hand : tolds ds ++ l'.relay.phase.untold = l.relay.phase.untold ++ tooks ds
  handled : (tolds ds).length + l.relay.phase.reply.length =
    ds.countP Deed.isFinish + l'.relay.phase.reply.length + ds.countP Deed.isFall
  finished : ds.countP Deed.isFinish + l.unsettled.toNat = ds.count .settled + l'.unsettled.toNat
  settled : l'.settled = l.settled + ds.count .settled
  informed : l'.relay.device = Device.after l.relay.device (tolds ds)
  replied : replies ds ++ l'.relay.phase.reply =
    l.relay.phase.reply ++ Device.replies l.relay.device (tolds ds)
  input : l'.input = used l.input ds
  detached : l'.detached = true ↔ l.detached = true ∨ .detached ∈ ds
  fallen : l.relay.phase.over? ≠ none ∨ 0 < ds.countP Deed.isFall → l'.relay.phase.over? ≠ none
  gone : (l.detached = true ↔ ∃ o, l.relay.phase = .ended o) →
    (l'.detached = true ↔ ∃ o, l'.relay.phase = .ended o)

/-- An act keeps the ledger balanced: each equation is that of the history, followed by that of what
the act adds to it. -/
theorem Balances.enter (balances : Balances device input h l) {ds : List Deed} {l' : Loop ι τ}
    (enters : Enters l ds l') : Balances device input (h ++ ds) l' := by
  have saids' : saids (h ++ ds) = saids h ++ saids ds := List.filterMap_append
  have tooks' : tooks (h ++ ds) = tooks h ++ tooks ds := List.filterMap_append
  have tolds' : tolds (h ++ ds) = tolds h ++ tolds ds := List.filterMap_append
  have replies' : replies (h ++ ds) = replies h ++ replies ds := List.filterMap_append
  have told : Device.after device (tolds h ++ tolds ds) =
      Device.after l.relay.device (tolds ds) := by
    rw [balances.informed, Device.after, List.foldl_append]
    rfl
  constructor
  · rw [enters.emitted, balances.emitted, saids', List.length_append]
  · rw [tooks', saids', List.append_assoc, enters.line, ← List.append_assoc, balances.line]
  · rw [tolds', tooks', List.append_assoc, enters.hand, ← List.append_assoc, balances.hand]
  · have before := balances.handled
    have here := enters.handled
    rw [tolds', List.length_append, List.countP_append, List.countP_append]
    omega
  · have before := balances.finished
    have here := enters.finished
    rw [List.countP_append, List.count_append]
    omega
  · rw [enters.settled, balances.settled, List.count_append]
  · rw [enters.informed, tolds', told]
  · rw [replies', tolds', List.append_assoc, enters.replied, ← List.append_assoc,
      balances.replied, Device.replies_append, ← balances.informed]
  · rw [enters.input, balances.input, used, used, used, List.filterMap_append, List.foldl_append]
  · rw [enters.detached, balances.detached, List.mem_append]
  · intro fell
    rw [List.countP_append] at fell
    refine enters.fallen ?_
    by_cases old : 0 < h.countP Deed.isFall
    · exact .inl (balances.fallen old)
    · exact .inr (by omega)
  · exact enters.gone balances.gone

theorem apart_of_outside {d : Deed} (outside : d.isOutside = true) :
    d.took? = none ∧ d.told? = none ∧ d.reply? = none ∧ ¬ d.isFinish = true ∧
      ¬ d.isFall = true := by
  cases d with
  | said | read | used => exact ⟨rfl, rfl, rfl, Bool.false_ne_true, Bool.false_ne_true⟩
  | _ => cases outside

/-- What the relay has not done is nothing to what it keeps account of. -/
theorem enters_of_outside (cpu : Processor Unit) {emitted : Nat} {uncounted : Bool} {line : Wire}
    {input : ι} {ds : List Deed} (stopped : Bool) (outside : ∀ d ∈ ds, d.isOutside = true)
    (said : line.toList = l.line.toList ++ saids ds)
    (counted : emitted + uncounted.toNat = l.emitted + l.uncounted.toNat + (saids ds).length)
    (used : input = used l.input ds) :
    Enters l ds
      { l with cpu, relay := { l.relay with stopped }, line, input, emitted, uncounted } := by
  have none_of {f : Deed → Option Word} (apart : ∀ d, d.isOutside = true → f d = none) :
      ds.filterMap f = [] :=
    List.filterMap_eq_nil_iff.mpr fun d mem => apart d (outside d mem)
  have zero_of {f : Deed → Bool} (apart : ∀ d, d.isOutside = true → ¬ f d = true) :
      ds.countP f = 0 :=
    List.countP_eq_zero.mpr fun d mem => apart d (outside d mem)
  have took : tooks ds = [] := none_of fun d out => (apart_of_outside out).1
  have told : tolds ds = [] := none_of fun d out => (apart_of_outside out).2.1
  have replied : replies ds = [] := none_of fun d out => (apart_of_outside out).2.2.1
  have finish : ds.countP Deed.isFinish = 0 := zero_of fun d out => (apart_of_outside out).2.2.2.1
  have fall : ds.countP Deed.isFall = 0 := zero_of fun d out => (apart_of_outside out).2.2.2.2
  have settled : ds.count .settled = 0 :=
    List.count_eq_zero.mpr fun mem => nomatch outside _ mem
  have detached : .detached ∉ ds := fun mem => nomatch outside _ mem
  refine ⟨counted, ?_, ?_, ?_, ?_, ?_, ?_, ?_, used, ?_, ?_, fun gone => gone⟩
  · rw [took]
    exact said
  · rw [took, told, List.append_nil]
    rfl
  · simp [told, finish, fall]
  · simp [finish, settled]
  · simp [settled]
  · rw [told]
    rfl
  · rw [replied, told]
    exact (List.append_nil _).symm
  · simp [detached]
  · simp [fall]

/-- A step of the machine, which reads or says a value or does neither. -/
theorem enters_step (counted : l.uncounted = false) (running : l.cpu.phase = .running)
    {s : Stepped (Gate ι) Wire} (step : Rig.step ⟨l.cpu.machine, l.gate, l.line, l.cpu.trace⟩ = s)
    (idle : s.result = .error .blocked → s.traffic = none) {ds : List Deed}
    (outside : ∀ d ∈ ds, d.isOutside = true) (words : saids ds = Traffic.words s.traffic)
    (said : s.rig.output.toList = l.line.toList ++ Traffic.words s.traffic)
    (input : s.rig.input.inner = used l.input ds) : Enters l ds l.actCpu.1 := by
  obtain ⟨uncounted, one, acted⟩ := actCpu_of_running counted running step idle
  rw [acted]
  refine enters_of_outside _ l.relay.stopped outside (by rw [words]; exact said) ?_ input
  rw [counted, words, one]
  rfl

omit [Channel ι] [Device τ] in
theorem reads_of_resting (resting : l.cpu.phase ≠ .running) : l.reads = false := by
  unfold reads
  split
  · rename_i running
    exact absurd running resting
  · rfl

omit [Channel ι] [Device τ] in
theorem reads_of_running (counted : l.uncounted = false) (running : l.cpu.phase = .running) :
    l.reads = (l.cpu.machine.demand == .word) := by
  rw [reads, running, counted]
  rfl

/-- A step that does not read. -/
theorem enters_saying (counted : l.uncounted = false) (running : l.cpu.phase = .running)
    (unread : l.reads = false) {s : Stepped (Gate ι) Wire}
    (step : Rig.step ⟨l.cpu.machine, l.gate, l.line, l.cpu.trace⟩ = s)
    (idle : s.result = .error .blocked → s.traffic = none)
    (said : s.rig.output.toList = l.line.toList ++ Traffic.words s.traffic)
    (same : s.rig.input.inner = l.input) : Enters l l.cpuDeeds l.actCpu.1 := by
  have deeds : l.cpuDeeds = (Traffic.words s.traffic).map .said := by
    rw [cpuDeeds, counted, unread, Processor.act_of_running running, step]
    exact congrArg (List.map Deed.said) (Processor.words_eventOf idle)
  rw [deeds]
  refine enters_step counted running step idle ?_ ?_ said ?_
  · intro d mem
    obtain ⟨v, -, rfl⟩ := List.mem_map.mp mem
    rfl
  · simp [saids, Deed.said?, Function.comp_def]
  · simp [used, Deed.use?, Function.comp_def, same]

/-- An act of a processor that runs. -/
theorem enters_running (counted : l.uncounted = false) (running : l.cpu.phase = .running) :
    Enters l l.cpuDeeds l.actCpu.1 := by
  have reading := reads_of_running counted running
  cases demand : l.cpu.machine.demand with
  | nothing =>
    rw [demand] at reading
    have step := Rig.step_of_nothing ⟨l.cpu.machine, l.gate, l.line, l.cpu.trace⟩ demand
    exact enters_saying counted running reading step (fun _ => rfl) (List.append_nil _).symm rfl
  | word =>
    rw [demand] at reading
    have step := Rig.step_of_word ⟨l.cpu.machine, l.gate, l.line, l.cpu.trace⟩ demand
    cases shut : l.gate.shut with
    | true =>
      have waits : l.cpuDeeds = [] := by
        simp [cpuDeeds, counted, reading, shut]
      rw [take_of_shut shut] at step
      rw [waits]
      exact enters_step counted running step (fun _ => rfl) nofun rfl (List.append_nil _).symm rfl
    | false =>
      have goes : l.cpuDeeds = [.read] := by
        simp [cpuDeeds, counted, reading, shut]
      rw [take_of_open shut] at step
      rw [goes]
      cases taken : Channel.take l.gate.inner with
      | mk got input =>
        rw [taken] at step
        have reached : input = used l.input [.read] := (congrArg Prod.snd taken).symm
        cases got with
        | error s =>
          exact enters_step counted running step (fun _ => rfl) (by decide) rfl
            (List.append_nil _).symm reached
        | ok v =>
          refine enters_step counted running step ?_ (by decide) rfl (List.append_nil _).symm
            reached
          exact fun waits => absurd waits (Machine.turn_ne_blocked _ v)
  | room v =>
    rw [demand] at reading
    have step := Rig.step_of_room ⟨l.cpu.machine, l.gate, l.line, l.cpu.trace⟩ demand
    cases closed : l.line.closed with
    | true =>
      simp only [Wire.put_of_closed closed] at step
      exact enters_saying counted running reading step (fun _ => rfl) (List.append_nil _).symm rfl
    | false =>
      obtain ⟨line, given, appended, -⟩ := Wire.put_of_open closed v
      simp only [given] at step
      refine enters_saying counted running reading step ?_ appended rfl
      exact fun waits => absurd waits (Machine.turn_ne_blocked _ 0)

omit [Device τ] in
theorem actCpu_of_uncounted (uncounted : l.uncounted = true) :
    l.actCpu.1 = { l with emitted := l.emitted + 1, uncounted := false } := by
  obtain ⟨cpu, relay, input, line, emitted, settled, detached, _, unsettled⟩ := l
  cases uncounted
  rfl

/-- An act of the processor writes down what it has changed. -/
theorem enters_actCpu (l : Loop ι τ) : Enters l l.cpuDeeds l.actCpu.1 := by
  cases counted : l.uncounted with
  | true =>
    rw [actCpu_of_uncounted counted, cpuDeeds, counted]
    refine enters_of_outside l.cpu l.relay.stopped nofun (List.append_nil _).symm ?_ rfl
    rw [counted]
    rfl
  | false =>
    by_cases running : l.cpu.phase = .running
    · exact enters_running counted running
    · have rests := Processor.act_rests running l.gate l.line
      obtain ⟨stopped, -, acted⟩ := actCpu_of_resting counted running
      have quiet : l.cpuDeeds = [] := by
        rw [cpuDeeds, counted, reads_of_resting running, rests.silent]
        rfl
      rw [acted, quiet]
      refine enters_of_outside _ stopped nofun ?_ ?_ rfl
      · rcases rests.output with same | ⟨-, closed⟩
        · rw [same]
          exact (List.append_nil _).symm
        · rw [closed]
          exact (List.append_nil _).symm
      · rw [counted]
        rfl

/-- An act of the relay that has settled the value which it has handled. -/
theorem actRelay_eq (counted : l.unsettled = false) :
    l.actRelay.1 =
      let a := l.relay.act l.line l.input
      { l with
        relay := a.relay
        line := a.input
        input := a.output
        detached := l.detached || a.event == .departed
        unsettled := a.event == .handled } := by
  obtain ⟨cpu, relay, input, line, emitted, settled, detached, uncounted, unsettled⟩ := l
  cases counted
  rfl

theorem actRelay_of_unsettled (unsettled : l.unsettled = true) :
    l.actRelay.1 = { l with settled := l.settled + 1, unsettled := false } := by
  obtain ⟨cpu, relay, input, line, emitted, settled, detached, uncounted, _⟩ := l
  cases unsettled
  rfl

/-- The relay counts the value that it has handled. -/
theorem enters_settling (unsettled : l.unsettled = true) : Enters l l.relayDeeds l.actRelay.1 := by
  have deeds : l.relayDeeds = [.settled] := if_pos unsettled
  rw [deeds, actRelay_of_unsettled unsettled]
  refine ⟨rfl, (List.append_nil _).symm, (List.append_nil _).symm, rfl, ?_, rfl, rfl,
    (List.append_nil _).symm, rfl, ?_, fun fell => fell.resolve_right nofun, fun gone => gone⟩
  · rw [unsettled]
    rfl
  · simp

/-- The relay has nothing in its hand, before and after. -/
theorem enters_empty (counted : l.unsettled = false) (phase : Relay.Phase) {line : Wire}
    {detached : Bool} (same : line.toList = l.line.toList) (untold : l.relay.phase.untold = [])
    (reply : l.relay.phase.reply = []) (untold' : phase.untold = []) (reply' : phase.reply = [])
    (stays : l.relay.phase.over? ≠ none → phase.over? ≠ none) {ds : List Deed}
    (quiet : ds = [] ∨ ds = [.closed] ∨ ds = [.detached]) {input : ι}
    (input' : input = used l.input ds)
    (here : detached = true ↔ l.detached = true ∨ .detached ∈ ds)
    (gone : (l.detached = true ↔ ∃ o, l.relay.phase = .ended o) →
      (detached = true ↔ ∃ o, phase = .ended o)) :
    Enters l ds
      { l with relay := { l.relay with phase }, line, input, detached, unsettled := false } := by
  have bare : tooks ds = [] ∧ saids ds = [] ∧ tolds ds = [] ∧ replies ds = [] ∧
      ds.countP Deed.isFinish = 0 ∧ ds.countP Deed.isFall = 0 ∧ ds.count .settled = 0 := by
    rcases quiet with rfl | rfl | rfl <;> decide
  obtain ⟨took, said, told, replied, finish, fall, settled⟩ := bare
  refine ⟨?_, ?_, ?_, ?_, ?_, ?_, ?_, ?_, input', here, ?_, gone⟩
  · rw [said]
    rfl
  · rw [took, said, List.append_nil]
    exact same
  · simp only [told, took, untold, untold', List.append_nil]
  · simp [told, reply, reply', finish, fall]
  · simp only [finish, settled, counted]
  · rw [settled]
    rfl
  · rw [told]
    rfl
  · simp only [replied, told, reply, reply', Device.replies, List.append_nil]
  · intro fell
    refine stays (fell.resolve_right ?_)
    rw [fall]
    exact Nat.lt_irrefl 0

omit [Channel ι] [Device τ] in
/-- The device has been let go exactly if the relay has ended, also after an act in between. -/
theorem gone_between {phase : Relay.Phase} (before : ∀ o, l.relay.phase ≠ .ended o)
    (after : ∀ o, phase ≠ .ended o) (gone : l.detached = true ↔ ∃ o, l.relay.phase = .ended o) :
    l.detached = true ↔ ∃ o, phase = .ended o :=
  ⟨fun detached => (not_exists.mpr before (gone.mp detached)).elim,
    fun ⟨o, ended⟩ => (after o ended).elim⟩

/-- The relay takes a value from the line. -/
theorem enters_taking (counted : l.unsettled = false) (untold : l.relay.phase.untold = [])
    (reply : l.relay.phase.reply = []) (running : l.relay.phase.over? = none) {v : Word}
    {left : Option Nat} {line : Wire} (next : l.line.toList = v :: line.toList) :
    Enters l [.took v]
      { l with relay := { l.relay with phase := .holding v left }, line, unsettled := false } := by
  refine ⟨rfl, ?_, ?_, ?_, ?_, rfl, rfl, ?_, rfl, ?_, ?_, gone_between ?_ nofun⟩
  · rw [next]
    exact (List.append_nil _).symm
  · rw [untold]
    rfl
  · rw [reply]
    rfl
  · rw [counted]
    rfl
  · rw [reply]
    rfl
  · simp
  · intro fell
    rcases fell with isOver | fall
    · exact absurd running isOver
    · cases fall
  · intro o ended
    rw [ended] at running
    cases running

/-- The relay handles the value in its hand, or the first half of that. -/
theorem enters_handling (counted : l.unsettled = false) (running : l.relay.phase.over? = none)
    {ds : List Deed} (told : List Word) {device : τ} {phase : Relay.Phase} {input : ι}
    {detached unsettled : Bool} (kept : detached = l.detached)
    (own : tooks ds = [] ∧ saids ds = [] ∧ ds.count .settled = 0 ∧ .detached ∉ ds)
    (told' : tolds ds = told) (hand : told ++ phase.untold = l.relay.phase.untold)
    (handled : told.length + l.relay.phase.reply.length =
      ds.countP Deed.isFinish + phase.reply.length + ds.countP Deed.isFall)
    (one : ds.countP Deed.isFinish = unsettled.toNat)
    (informed : device = Device.after l.relay.device told)
    (replied : replies ds ++ phase.reply =
      l.relay.phase.reply ++ Device.replies l.relay.device told)
    (used : input = used l.input ds)
    (fallen : 0 < ds.countP Deed.isFall → phase.over? ≠ none)
    (unended : ∀ o, phase ≠ .ended o) :
    Enters l ds
      { l with relay := { l.relay with device, phase }, input, detached, unsettled } := by
  subst kept told'
  obtain ⟨took, said, settled, here⟩ := own
  refine ⟨?_, ?_, ?_, handled, ?_, ?_, informed, replied, used, ?_, ?_, gone_between ?_ unended⟩
  · rw [said]
    rfl
  · rw [took, said, List.append_nil]
    rfl
  · rw [took, List.append_nil]
    exact hand
  · rw [one, counted, settled]
    exact Nat.add_comm _ _
  · rw [settled]
    rfl
  · simp [here]
  · intro fell
    exact fallen (fell.resolve_left fun isOver => isOver running)
  · intro o ended
    rw [ended] at running
    cases running

/-- The relay tells a value to the device, which may hang up. -/
theorem enters_telling (counted : l.unsettled = false) {v : Word} {left : Option Nat}
    (holding : l.relay.phase = .holding v left) : Enters l l.relayDeeds l.actRelay.1 := by
  have running : l.relay.phase.over? = none := by
    rw [holding]
    rfl
  have hand : l.relay.phase.untold = [v] := by
    rw [holding]
    rfl
  have bare : l.relay.phase.reply = [] := by
    rw [holding]
    rfl
  have informed : Device.after l.relay.device [v] = (Device.respond l.relay.device v).device := rfl
  have replies : Device.replies l.relay.device [v] =
      (Device.respond l.relay.device v).answer.words := List.append_nil _
  have deeds : l.relayDeeds = .told v :: finish (Device.respond l.relay.device v).answer ++
      if (Device.respond l.relay.device v).hangsUp then [.closed] else [] := by
    rw [relayDeeds, counted, holding]
    rfl
  have acted := actRelay_eq counted
  simp only [Relay.act, holding] at acted
  cases response : Device.respond l.relay.device v with
  | mk device answer hangsUp warnings =>
    rw [response] at informed replies deeds acted
    rw [deeds, acted]
    have input : (if hangsUp then Channel.close l.input else l.input) =
        used l.input (.told v :: finish answer ++ if hangsUp then [.closed] else []) := by
      cases answer <;> cases hangsUp <;> rfl
    have told : tolds (.told v :: finish answer ++ if hangsUp then [.closed] else []) = [v] := by
      cases answer <;> cases hangsUp <;> rfl
    have own : ∀ ds, ds = Deed.told v :: finish answer ++ (if hangsUp then [.closed] else []) →
        tooks ds = [] ∧ saids ds = [] ∧ ds.count .settled = 0 ∧ .detached ∉ ds := by
      rintro ds rfl
      cases answer <;> cases hangsUp <;> simp [finish, tooks, saids, Deed.took?, Deed.said?]
    cases answer with
    | reply w =>
      refine enters_handling counted running _ (Bool.or_false _) (own _ rfl) told hand.symm ?_ ?_
        informed.symm ?_ input ?_ nofun
      · rw [bare]
        cases hangsUp <;> rfl
      · cases hangsUp <;> rfl
      · rw [bare, replies]
        cases hangsUp <;> rfl
      · cases hangsUp <;> nofun
    | silent =>
      refine enters_handling counted running _ (Bool.or_false _) (own _ rfl) told ?_ ?_ ?_
        informed.symm ?_ input ?_ ?_
      · rw [hand]
        cases left <;> rfl
      · rw [bare]
        cases left <;> cases hangsUp <;> rfl
      · cases hangsUp <;> rfl
      · rw [bare, replies]
        cases left <;> cases hangsUp <;> rfl
      · cases hangsUp <;> nofun
      · cases left <;> nofun
    | crash =>
      refine enters_handling counted running _ (Bool.or_false _) (own _ rfl) told hand.symm ?_ ?_
        informed.symm ?_ input nofun nofun
      · rw [bare]
        cases hangsUp <;> rfl
      · cases hangsUp <;> rfl
      · rw [bare, replies]
        cases hangsUp <;> rfl

/-- The relay has put a reply, which the input has accepted or not. -/
theorem enters_answered (counted : l.unsettled = false) {w : Word} {left : Option Nat}
    (answering : l.relay.phase = .answering w left) (accepted : Bool) {phase : Relay.Phase}
    (untold : phase.untold = []) (reply : phase.reply = []) (unended : ∀ o, phase ≠ .ended o) :
    Enters l [.answered w accepted]
      { l with
        relay := { l.relay with phase }
        input := (Channel.put l.input w).2
        detached := l.detached || false
        unsettled := true } := by
  refine enters_handling (l := l) counted ?_ [] (Bool.or_false _) ?_ rfl ?_ ?_ rfl rfl ?_
    rfl nofun unended
  · rw [answering]
    rfl
  · exact ⟨rfl, rfl, rfl, by simp⟩
  · rw [untold, answering]
    rfl
  · rw [reply, answering]
    rfl
  · rw [reply, answering]
    rfl

/-- The relay puts a reply. -/
theorem enters_putting (counted : l.unsettled = false) {w : Word} {left : Option Nat}
    (answering : l.relay.phase = .answering w left) : Enters l l.relayDeeds l.actRelay.1 := by
  have deeds : l.relayDeeds = match (Channel.put l.input w).1 with
      | .ok () => [.answered w true]
      | .error .crashed => [.choked w]
      | .error _ => [.answered w false] := by
    rw [relayDeeds, counted, answering]
    rfl
  have acted := actRelay_eq counted
  simp only [Relay.act, answering] at acted
  have answered := enters_answered counted answering
  cases given : Channel.put l.input w with
  | mk accepted input =>
    rw [given] at deeds acted answered
    rw [deeds, acted]
    cases accepted with
    | ok u =>
      refine answered true ?_ ?_ ?_
      · cases left <;> rfl
      · cases left <;> rfl
      · cases left <;> simp [Relay.resume]
    | error s =>
      cases s with
      | fault f => exact answered false rfl rfl (by simp [Relay.phaseOfStop])
      | blocked => exact answered false rfl rfl (by simp [Relay.phaseOfStop])
      | crashed =>
        refine enters_handling counted ?_ [] (Bool.or_false _) ?_ rfl ?_ ?_ rfl rfl ?_ ?_
          (fun _ => Option.some_ne_none _) ?_
        · rw [answering]
          rfl
        · exact ⟨rfl, rfl, rfl, by simp⟩
        · rw [answering]
          rfl
        · rw [answering]
          rfl
        · rw [answering]
          rfl
        · exact (congrArg Prod.snd given).symm
        · simp [Relay.phaseOfStop]

/-- The relay looks for a value on the line and goes on to what that comes to. -/
theorem enters_looking (counted : l.unsettled = false) (untold : l.relay.phase.untold = [])
    (reply : l.relay.phase.reply = []) (running : l.relay.phase.over? = none) (left : Option Nat)
    (next : Except Stop (Option Word) → Relay.Phase)
    (takes : ∀ v, next (.ok (some v)) = .holding v left)
    (stays : ∀ got, got = .ok none ∨ got = .error (.fault .notConnected) →
      (next got).untold = [] ∧ (next got).reply = [] ∧ ∀ o, next got ≠ .ended o)
    (deeds : l.relayDeeds = match (Channel.poll l.line).1 with
      | .ok (some v) => [.took v]
      | .ok none | .error _ => [])
    (acted : l.actRelay.1 =
      { l with
        relay := { l.relay with phase := next (Channel.poll l.line).1 }
        line := (Channel.poll l.line).2
        detached := l.detached || false
        unsettled := false }) :
    Enters l l.relayDeeds l.actRelay.1 := by
  rw [deeds, acted, Bool.or_false]
  cases contents : l.line.toList with
  | nil =>
    rw [Wire.poll_of_nil contents]
    have unended (o : Relay.Outcome) : l.relay.phase ≠ .ended o := by
      intro ended
      rw [ended] at running
      cases running
    have empty {got : Except Stop (Option Word)}
        (idle : got = .ok none ∨ got = .error (.fault .notConnected)) :
        Enters l []
          { l with relay := { l.relay with phase := next got }, unsettled := false } := by
      obtain ⟨untold', reply', unended'⟩ := stays got idle
      refine enters_empty counted (next got) rfl untold reply untold' reply' (absurd running)
        (.inl rfl) rfl ?_ (gone_between unended unended')
      exact (or_iff_left List.not_mem_nil).symm
    cases l.line.closed with
    | false => exact empty (.inl rfl)
    | true => exact empty (.inr rfl)
  | cons v queued =>
    obtain ⟨line, polled, rfl, -⟩ := Wire.poll_of_cons contents
    rw [polled, takes]
    exact enters_taking counted untold reply running contents

/-- The relay goes on with nothing in its hand. -/
theorem enters_turning (counted : l.unsettled = false) (next : Relay.Phase)
    (untold : l.relay.phase.untold = []) (reply : l.relay.phase.reply = [])
    (untold' : next.untold = []) (reply' : next.reply = [])
    (stays : l.relay.phase.over? ≠ none → next.over? ≠ none)
    (gone : (∃ o, l.relay.phase = .ended o) ↔ ∃ o, next = .ended o)
    (deeds : l.relayDeeds = [])
    (acted : l.actRelay.1 =
      { l with
        relay := { l.relay with phase := next }
        detached := l.detached || false
        unsettled := false }) :
    Enters l l.relayDeeds l.actRelay.1 := by
  rw [deeds, acted, Bool.or_false]
  refine enters_empty counted next rfl untold reply untold' reply' stays (.inl rfl) rfl ?_ ?_
  · exact (or_iff_left List.not_mem_nil).symm
  · exact fun detached => detached.trans gone

/-- The relay closes the input. -/
theorem enters_closing (counted : l.unsettled = false) {o : Relay.Outcome}
    (phase : l.relay.phase = .closing o) : Enters l l.relayDeeds l.actRelay.1 := by
  have deeds : l.relayDeeds = [.closed] := by
    rw [relayDeeds, counted, phase]
    rfl
  have stays : (l.detached || Relay.Event.moved == .departed) = l.detached := Bool.or_false _
  have acted := actRelay_eq counted
  simp only [Relay.act, phase] at acted
  rw [deeds, acted, stays]
  refine enters_empty counted (.leaving o) rfl ?_ ?_ rfl rfl (fun _ => Option.some_ne_none o)
    (.inr (.inl rfl)) rfl ?_ ?_
  · rw [phase]
    rfl
  · rw [phase]
    rfl
  · simp
  · exact gone_between (by simp [phase]) (by simp)

/-- The relay lets the device go. -/
theorem enters_leaving (counted : l.unsettled = false) {o : Relay.Outcome}
    (phase : l.relay.phase = .leaving o) : Enters l l.relayDeeds l.actRelay.1 := by
  have deeds : l.relayDeeds = [.detached] := by
    rw [relayDeeds, counted, phase]
    rfl
  have goes : (l.detached || Relay.Event.departed == .departed) = true := Bool.or_true _
  have acted := actRelay_eq counted
  simp only [Relay.act, phase] at acted
  rw [deeds, acted, goes]
  refine enters_empty counted (.ended o) rfl ?_ ?_ rfl rfl (fun _ => Option.some_ne_none o)
    (.inr (.inr rfl)) rfl ?_ ?_
  · rw [phase]
    rfl
  · rw [phase]
    rfl
  · exact ⟨fun _ => .inr (List.mem_singleton.mpr rfl), fun _ => rfl⟩
  · exact fun _ => ⟨fun _ => ⟨o, rfl⟩, fun _ => rfl⟩

/-- To look for a value is neither to handle one nor to let the device go. -/
theorem unseen_poll (got : Except Stop (Option Word)) :
    (Relay.eventOfPoll got == .departed) = false ∧ (Relay.eventOfPoll got == .handled) = false := by
  cases got with
  | error s => cases s <;> exact ⟨rfl, rfl⟩
  | ok v => cases v <;> exact ⟨rfl, rfl⟩

/-- An act of the relay writes down what it has changed. -/
theorem enters_actRelay (l : Loop ι τ) : Enters l l.relayDeeds l.actRelay.1 := by
  cases counted : l.unsettled with
  | true => exact enters_settling counted
  | false =>
    have acted := actRelay_eq counted
    have turning (next : Relay.Phase) := enters_turning counted next
    have looking := enters_looking counted
    cases phase : l.relay.phase with
    | holding v left => exact enters_telling counted phase
    | answering w left => exact enters_putting counted phase
    | ready =>
      simp only [Relay.act, phase] at acted
      rw [phase] at turning
      refine turning .ready rfl rfl rfl rfl id .rfl ?_ ?_
      · rw [relayDeeds, counted, phase]
        rfl
      · rw [acted, ← phase]
        rfl
    | ended o =>
      simp only [Relay.act, phase] at acted
      rw [phase] at turning
      refine turning (.ended o) rfl rfl rfl rfl id .rfl ?_ ?_
      · rw [relayDeeds, counted, phase]
        rfl
      · rw [acted, ← phase]
        rfl
    | checking =>
      have deeds : l.relayDeeds = [] := by
        rw [relayDeeds, counted, phase]
        rfl
      simp only [Relay.act, phase] at acted
      rw [phase] at turning
      cases stopped : l.relay.stopped with
      | true =>
        rw [if_pos stopped] at acted
        exact turning .tallying rfl rfl rfl rfl (absurd rfl) (by simp) deeds acted
      | false =>
        rw [if_neg (ne_true_of_eq_false stopped)] at acted
        exact turning .polling rfl rfl rfl rfl (absurd rfl) (by simp) deeds acted
    | tallying =>
      simp only [Relay.act, phase] at acted
      rw [phase] at turning
      refine turning (.flushing (Channel.pending l.line)) rfl rfl rfl rfl (absurd rfl) (by simp) ?_
        acted
      rw [relayDeeds, counted, phase]
      rfl
    | polling =>
      simp only [Relay.act, phase] at acted
      rw [phase] at looking
      refine looking rfl rfl rfl none (Relay.phaseAfterPoll l.relay.id) (fun v => rfl) ?_ ?_ ?_
      · rintro got (rfl | rfl) <;> exact ⟨rfl, rfl, by simp [Relay.phaseAfterPoll]⟩
      · rw [relayDeeds, counted, phase]
        rfl
      · rw [acted, (unseen_poll _).1, (unseen_poll _).2]
    | flushing left =>
      cases left with
      | zero =>
        simp only [Relay.act, phase] at acted
        rw [phase] at turning
        refine turning (.closing (.ok ())) rfl rfl rfl rfl (absurd rfl) (by simp) ?_ acted
        rw [relayDeeds, counted, phase]
        rfl
      | succ left =>
        simp only [Relay.act, phase] at acted
        rw [phase] at looking
        refine looking rfl rfl rfl (some left) (Relay.phaseAfterFlush l.relay.id left)
          (fun v => rfl) ?_ ?_ acted
        · rintro got (rfl | rfl) <;>
            exact ⟨rfl, rfl, by simp [Relay.phaseAfterFlush, Relay.phaseOfStop]⟩
        · rw [relayDeeds, counted, phase]
          rfl
    | closing o => exact enters_closing counted phase
    | leaving o => exact enters_leaving counted phase

/-- Somebody else uses the input. -/
theorem enters_use (l : Loop ι τ) (use : Use) :
    Enters l [.used use] { l with input := use.on l.input } := by
  refine enters_of_outside l.cpu l.relay.stopped ?_ (List.append_nil _).symm rfl rfl
  intro d mem
  rw [List.mem_singleton.mp mem]
  rfl

end Loop

end Intcode
