import Intcode.Device.Loop
import Intcode.Proofs.Channel.Contents
import Intcode.Proofs.Device.Coroutine
import Intcode.Proofs.Relay.Phase

/-!
# Loops beside their coroutines

A device loop may be behind its coroutine: values that the machine has emitted are still on the line
or in the hand of the relay. `due` is the service that there will be once they are handled.
`Mirrors` says that a loop has come as far as a run of the coroutine but for what is due.
-/

namespace Intcode

def Device.after {τ : Type} [Device τ] (d : τ) (told : List Word) : τ :=
  told.foldl (fun d v => (Device.respond d v).device) d

def Device.Steady {τ : Type} [Device τ] (d : τ) : Prop :=
  ∀ told v, (Device.respond (Device.after d told) v).answer ≠ .crash

theorem Device.Steady.next {τ : Type} [Device τ] {d : τ} (steady : Device.Steady d) (v : Word) :
    Device.Steady (Device.respond d v).device := by
  intro told w
  exact steady (v :: told) w

namespace Loop

variable {ι τ : Type}

def tells (l : Loop ι τ) (i : Nat) : List Word :=
  if i = 0 ∨ l.unsettled = true then []
  else
    match l.relay.phase with
    | .holding v _ => [v]
    | _ => []

/-- The input as the processor finds it. -/
def gate (l : Loop ι τ) : Gate ι :=
  { inner := l.input, shut := l.settled < l.emitted && !l.detached }

variable [Channel ι] [Device τ]

def handled (s : Service ι τ) : Relay.Phase → Service ι τ
  | .holding v _ => s.serve v
  | .answering w _ => s.answer w
  | _ => s

/-- The service once everything is handled that the machine has emitted. Here `own` is the input
without the closing that is the last thing a relay does to it. -/
def due (l : Loop ι τ) (own : ι) (told : List Word) : Service ι τ :=
  l.line.toList.foldl Service.serve
    (handled { input := own, device := l.relay.device, told, refusal := l.relay.phase.refusal? }
      l.relay.phase)

/-- The books of a loop: what has been counted, and what has to have happened before the relay may
stop or end. -/
structure Orderly (l : Loop Endpoint τ) : Prop where
  count : l.emitted + l.uncounted.toNat =
    l.settled + l.unsettled.toNat + l.relay.phase.hand.length + l.line.toList.length
  accepts : l.cpu.over? = none → l.line.closed = false
  stopped : l.relay.stopped = true → l.cpu.over? ≠ none
  stopping : l.relay.phase.isStopping = true → l.cpu.over? ≠ none
  backlog : ∀ left, l.relay.phase.left? = some left → left = l.line.toList.length
  finished : l.relay.phase.over? = some (.ok ()) → l.cpu.over? ≠ none ∧ l.line.toList = []
  detached : l.detached = true → ∃ o, l.relay.phase = .ended o
  steady : Device.Steady l.relay.device

/-- How a loop stands to a run of the coroutine of its machine and its device. -/
structure Mirrors (id : String) (told : List Word) (own : Endpoint) (l : Loop Endpoint τ)
    (run : Option (Except Stop HaltState) × Coroutine Endpoint τ) : Prop where
  orderly : Orderly l
  named : l.cpu.id = id
  whole : own ≠ .broken
  input : l.input = if l.relay.phase.closes then Channel.close own else own
  refused : l.relay.phase.refusal? ≠ none → Channel.close own = own
  outcome : run.1.map (Outcome.ofEnd? id) = l.cpu.over?.map some
  machine : run.2.machine = l.cpu.machine
  service : run.2.service = l.due own told

/-- Before its first act, a loop mirrors its coroutine at its start. -/
theorem mirrors_load (id : String) (p : Program) {input : Endpoint} {device : τ} (debug : Bool)
    (whole : input ≠ .broken) (steady : Device.Steady device) :
    Mirrors id [] input (load id p input device debug)
      (Coroutine.run 0 (.load id p input device debug)) :=
  ⟨⟨rfl, fun _ => rfl, nofun, nofun, nofun, nofun, nofun, steady⟩, rfl, whole, rfl,
    fun refused => absurd rfl refused, rfl, rfl, rfl⟩

variable {id : String} {told : List Word} {own : Endpoint} {l : Loop Endpoint τ}
  {run : Option (Except Stop HaltState) × Coroutine Endpoint τ}

/-- Until the relay comes to an orderly end, the input is as the machine and the device left it. -/
theorem Mirrors.input_of_unfinished (mirrors : Mirrors id told own l run)
    (unfinished : l.relay.phase.over? ≠ some (.ok ())) : l.input = own := by
  rw [mirrors.input, Relay.Phase.closes_of_unfinished unfinished]
  rfl

theorem handled_of_hand {phase : Relay.Phase} (empty : phase.hand = []) (s : Service Endpoint τ) :
    handled s phase = s := by
  cases phase with
  | holding v left => cases empty
  | answering v left => cases empty
  | _ => rfl

theorem foldl_serve_of_refused {s : Service Endpoint τ} (refused : s.refusal ≠ none)
    (values : List Word) : values.foldl Service.serve s = s := by
  induction values with
  | nil => rfl
  | cons v values ih => rw [List.foldl_cons, Service.serve_of_refused refused, ih]

/-- Nothing more will change the service: the relay has handled everything, or it gave up. -/
def Still (l : Loop Endpoint τ) : Prop :=
  l.line.toList = [] ∧ l.relay.phase.hand = [] ∨ l.relay.phase.refusal? ≠ none

theorem Still.due_eq (still : Still l) (own : Endpoint) (told : List Word) :
    l.due own told = ⟨own, l.relay.device, told, l.relay.phase.refusal?⟩ := by
  rw [due]
  rcases still with ⟨line, hand⟩ | refused
  · rw [line, handled_of_hand hand]
    rfl
  · obtain ⟨f, failed⟩ := Relay.Phase.over?_of_refusal refused
    rw [handled_of_hand (Relay.Phase.hand_of_over failed)]
    exact foldl_serve_of_refused refused _

end Loop

end Intcode
