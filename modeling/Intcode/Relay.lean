import Intcode.Channel.Basic
import Intcode.Device.Basic
import Intcode.Text.Align

/-!
# Relays

A relay takes each value from its input, tells it to a device and puts the reply, if there is one,
on its output. It polls its input, so that it notices a raised stop signal while nothing arrives.
Stopping discards nothing: what is queued when the stop is noticed still goes through the device. A
closed input ends the relay the same way. At the end the relay closes its output; a crash of the
device or of a channel skips that.
-/

namespace Intcode

namespace Relay

abbrev Outcome := Except Fault Unit

/-- Where a relay's life stands. While it flushes, `left` is the number of values that it may still
take; before that there is none. -/
inductive Phase where
  | ready
  /-- Looks at the stop signal. -/
  | checking
  /-- Waits for a value. -/
  | polling
  /-- Has noticed the stop and counts what is queued. -/
  | tallying
  | flushing (left : Nat)
  /-- Has a value that the device is still to be told. -/
  | holding (value : Word) (left : Option Nat)
  /-- Has a reply that is still to be put. -/
  | answering (value : Word) (left : Option Nat)
  /-- The output is still to be closed. -/
  | closing (o : Outcome)
  /-- The device is still to be let go. -/
  | leaving (o : Outcome)
  | ended (o : Outcome)

end Relay

structure Relay (τ : Type) where
  id : String
  device : τ
  /-- Whether the stop signal is raised. -/
  stopped : Bool := false
  /-- How long a poll waits, in milliseconds. -/
  interval : Nat := 25
  phase : Relay.Phase := .ready
  /-- The outcome that a join has returned. -/
  joined : Option Relay.Outcome := none

namespace Relay

variable {τ ι ω : Type}

def outcome? (r : Relay τ) : Option Outcome :=
  match r.phase with
  | .ended o => some o
  | _ => none

/-- Lets the relay run. This can be done once. -/
def start (r : Relay τ) : List Warning × Relay τ :=
  match r.phase with
  | .ready => ([], { r with phase := .checking })
  | _ => ([.relayStarted r.id], r)

def stop (r : Relay τ) : Relay τ := { r with stopped := true }

inductive Event where
  /-- Nothing: there is nothing to do, or nothing has arrived. -/
  | idle
  | moved
  /-- A value has been handled: it got no reply, or an attempt was made to put its reply. -/
  | handled
  /-- The device was let go. -/
  | departed
  deriving DecidableEq, Repr

def Event.isMove : Event → Bool
  | idle => false
  | _ => true

structure Acted (τ ι ω : Type) where
  relay : Relay τ
  input : ι
  output : ω
  event : Event

def resume : Option Nat → Phase
  | none => .checking
  | some left => .flushing left

/-- The phase of a relay that has let itself be ended by a stop in its channel. -/
def phaseOfStop (id : String) : Stop → Phase
  | .fault f => .closing (.error f)
  | .blocked => .checking
  | .crashed => .leaving (.error (.relayCrashed id))

def phaseAfterPoll (id : String) : Except Stop (Option Word) → Phase
  | .ok (some v) => .holding v none
  | .ok none => .checking
  | .error (.fault .notConnected) => .closing (.ok ())
  | .error s => phaseOfStop id s

/-- The phase after taking a value that was queued when the stop was noticed. -/
def phaseAfterFlush (id : String) (left : Nat) : Except Stop (Option Word) → Phase
  | .ok (some v) => .holding v (some left)
  | .ok none => .closing (.ok ())
  | .error s => phaseOfStop id s

def eventOfPoll : Except Stop (Option Word) → Event
  | .ok none | .error .blocked => .idle
  | _ => .moved

/-- One atomic act. -/
def act [Device τ] [Channel ι] [Channel ω] (r : Relay τ) (input : ι) (output : ω) :
    Acted τ ι ω :=
  match r.phase with
  | .ready | .ended _ => ⟨r, input, output, .idle⟩
  | .checking =>
    if r.stopped then ⟨{ r with phase := .tallying }, input, output, .moved⟩
    else ⟨{ r with phase := .polling }, input, output, .idle⟩
  | .polling =>
    match Channel.poll input with
    | (got, input) => ⟨{ r with phase := phaseAfterPoll r.id got }, input, output, eventOfPoll got⟩
  | .tallying =>
    ⟨{ r with phase := .flushing (Channel.pending input) }, input, output, .moved⟩
  | .flushing 0 => ⟨{ r with phase := .closing (.ok ()) }, input, output, .moved⟩
  | .flushing (left + 1) =>
    match Channel.poll input with
    | (got, input) => ⟨{ r with phase := phaseAfterFlush r.id left got }, input, output, .moved⟩
  | .holding v left =>
    match Device.respond r.device v with
    | ⟨device, answer, hangsUp, _⟩ =>
      let output := if hangsUp then Channel.close output else output
      match answer with
      | .reply w => ⟨{ r with device, phase := .answering w left }, input, output, .moved⟩
      | .silent => ⟨{ r with device, phase := resume left }, input, output, .handled⟩
      | .crash => ⟨{ r with device, phase := phaseOfStop r.id .crashed }, input, output, .moved⟩
  | .answering w left =>
    match Channel.put output w with
    | (.ok (), output) => ⟨{ r with phase := resume left }, input, output, .handled⟩
    | (.error .crashed, output) =>
      ⟨{ r with phase := phaseOfStop r.id .crashed }, input, output, .moved⟩
    | (.error s, output) => ⟨{ r with phase := phaseOfStop r.id s }, input, output, .handled⟩
  | .closing o => ⟨{ r with phase := .leaving o }, input, Channel.close output, .moved⟩
  | .leaving o => ⟨{ r with phase := .ended o }, input, output, .departed⟩

/-- Lets the relay act until nothing has arrived for it, at most `fuel` times. `idle` acts in a row
had nothing to do: two of them are one look at the stop signal and one at the input. -/
def drive [Device τ] [Channel ι] [Channel ω] :
    Nat → Nat → Relay τ → ι → ω → Relay τ × ι × ω
  | 0, _, r, input, output => (r, input, output)
  | fuel + 1, idle, r, input, output =>
    if 2 ≤ idle then (r, input, output)
    else
      match r.act input output with
      | ⟨r, input, output, .idle⟩ => drive fuel (idle + 1) r input output
      | ⟨r, input, output, _⟩ => drive fuel 0 r input output

/-- Asks for the outcome. A relay that nobody has started has nothing to wait for and succeeds;
otherwise there is no answer before the relay has ended. Once there is an answer, it stays. -/
def join (r : Relay τ) : Option Outcome × Relay τ :=
  match r.joined with
  | some o => (some o, r)
  | none =>
    match r.phase with
    | .ended o => (some o, { r with joined := some o })
    | .ready => (some (.ok ()), { r with joined := some (.ok ()) })
    | _ => (none, r)

/-- A duration with the largest unit that it fills, as a decimal without trailing zeros. -/
def durationText (ms : Nat) : String :=
  if ms = 0 then "0ns"
  else if ms < 1000 then s!"{ms}ms"
  else
    let places := (Text.alignRight 3 (toString (ms % 1000))).toList.map fun c =>
      if c = ' ' then '0' else c
    let kept := (places.reverse.dropWhile (· == '0')).reverse
    let fraction := if kept.isEmpty then [] else '.' :: kept
    toString (ms / 1000) ++ String.ofList fraction ++ "s"

def description (r : Relay τ) : String :=
  s!"Relay \x7b id: {Text.quoted r.id.toList}, stopped: {r.stopped}, " ++
    s!"poll_interval: {durationText r.interval} \x7d"

example : durationText 2 = "2ms" ∧ durationText 60000 = "60s" ∧ durationText 1050 = "1.05s" := by
  decide +kernel

end Relay

end Intcode
