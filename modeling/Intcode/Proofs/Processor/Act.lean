import Intcode.Processor
import Intcode.Proofs.Machine.Faults
import Intcode.Proofs.Machine.Run

/-!
# Acts of a processor

While a processor runs, its acts are the steps of its machine. Once its run is over it still closes
its output, reports and notifies, but its machine and its outcome stay as they are and it takes and
puts nothing more.
-/

namespace Intcode

/-- What the end of a run is to others. A run that waits for input has not come to an outcome. -/
def Outcome.ofEnd? (id : String) : Except Stop HaltState → Option Outcome
  | .ok s => some (.ok s)
  | .error (.fault f) => some (.error f)
  | .error .crashed => some (.error (.processorCrashed id))
  | .error .blocked => none

namespace Processor

variable {ν ι ω : Type}

/-- The outcome of a run that is over, whether or not the processor has ended. -/
def Phase.over? : Phase ν → Option Outcome
  | .ready | .running => none
  | .closing o | .reporting o | .ending o | .notifying o _ | .ended o => some o

def over? (p : Processor ν) : Option Outcome := p.phase.over?

def Event.words : Event ν → List Word
  | .sent v => [v]
  | .idle | .moved | .notified _ => []

def stepped (p : Processor ν) (result : Except Stop Progress) (m : Machine) (trace : Array Record) :
    Processor ν :=
  { p with machine := m, trace, phase := phaseAfter p.id m result }

theorem over?_of_running {p : Processor ν} (running : p.phase = .running) : p.over? = none := by
  rw [over?, running]
  rfl

theorem over?_of_ended {p : Processor ν} {o : Outcome} (h : p.outcome? = some o) :
    p.over? = some o := by
  rw [outcome?] at h
  rw [over?]
  split at h
  · rename_i ended
    rw [ended]
    exact h
  · cases h

/-- A step ends the run of a processor exactly as it ends a run of its machine. -/
theorem over?_stepped (p : Processor ν) {result : Except Stop Progress} (m : Machine)
    (trace : Array Record) (moving : result ≠ .error .blocked) :
    (p.stepped result m trace).over?.map some = (endOf m result).map (Outcome.ofEnd? p.id) := by
  cases result with
  | ok progress => cases progress <;> rfl
  | error s =>
    cases s with
    | fault f => rfl
    | crashed => rfl
    | blocked => exact absurd rfl moving

theorem words_eventOf {result : Except Stop Progress} {traffic : Option Traffic}
    (idle : result = .error .blocked → traffic = none) :
    (eventOf (ν := ν) result traffic).words = Traffic.words traffic := by
  unfold eventOf
  split
  · rw [idle rfl]
    rfl
  · rfl
  · rename_i quiet
    cases traffic with
    | none => rfl
    | some used =>
      cases used with
      | received v => rfl
      | sent v => exact absurd rfl (quiet v)

theorem eventOf_ne_notified (result : Except Stop Progress) (traffic : Option Traffic) (l : ν) :
    eventOf result traffic ≠ .notified l := by
  unfold eventOf
  split <;> nofun

section Act

variable [Channel ι] [Channel ω]

theorem act_of_running {p : Processor ν} (running : p.phase = .running) (input : ι) (output : ω) :
    p.act input output =
      let s := Rig.step ⟨p.machine, input, output, p.trace⟩
      ⟨p.stepped s.result s.rig.machine s.rig.trace, s.rig.input, s.rig.output,
        eventOf s.result s.traffic⟩ := by
  obtain ⟨id, machine, trace, phase, listeners, fired, joined⟩ := p
  cases running
  rfl

/-- An act of a processor that does not run: the machine rests, and of the channels the output may
be closed, which is the first thing after a run that did not crash. -/
structure Rests (p : Processor ν) (input : ι) (output : ω) (a : Acted ν ι ω) : Prop where
  id : a.processor.id = p.id
  machine : a.processor.machine = p.machine
  outcome : a.processor.over? = p.over?
  stays : a.processor.phase ≠ .running
  input : a.input = input
  output : a.output = output ∨ p.over? ≠ none ∧ a.output = Channel.close output
  silent : a.event.words = []
  notifies : ∀ l, a.event = .notified l → p.over? ≠ none

theorem act_rests {p : Processor ν} (resting : p.phase ≠ .running) (input : ι) (output : ω) :
    Rests p input output (p.act input output) := by
  obtain ⟨id, machine, trace, phase, listeners, fired, joined⟩ := p
  cases phase with
  | running => exact absurd rfl resting
  | ready => exact ⟨rfl, rfl, rfl, resting, rfl, Or.inl rfl, rfl, nofun⟩
  | closing o => exact ⟨rfl, rfl, rfl, nofun, rfl, Or.inr ⟨nofun, rfl⟩, rfl, nofun⟩
  | reporting o => exact ⟨rfl, rfl, rfl, nofun, rfl, Or.inl rfl, rfl, nofun⟩
  | ending o => exact ⟨rfl, rfl, rfl, nofun, rfl, Or.inl rfl, rfl, nofun⟩
  | notifying o waiting =>
    cases waiting with
    | nil => exact ⟨rfl, rfl, rfl, nofun, rfl, Or.inl rfl, rfl, nofun⟩
    | cons l waiting => exact ⟨rfl, rfl, rfl, nofun, rfl, Or.inl rfl, rfl, fun _ _ => nofun⟩
  | ended o => exact ⟨rfl, rfl, rfl, resting, rfl, Or.inl rfl, rfl, nofun⟩

end Act

/-- A processor that has no listener, and none that is still to be notified. -/
structure Unheard (p : Processor ν) : Prop where
  listeners : p.listeners = []
  waiting : ∀ o waiting, p.phase = .notifying o waiting → waiting = []

theorem phaseAfter_ne_notifying (id : String) (m : Machine) (result : Except Stop Progress)
    (o : Outcome) (waiting : List ν) : phaseAfter id m result ≠ .notifying o waiting := by
  unfold phaseAfter
  split <;> nofun

theorem act_unheard [Channel ι] [Channel ω] {p : Processor ν} (unheard : p.Unheard) (input : ι)
    (output : ω) :
    (p.act input output).processor.Unheard ∧ ∀ l, (p.act input output).event ≠ .notified l := by
  obtain ⟨id, machine, trace, phase, listeners, fired, joined⟩ := p
  obtain ⟨alone, empty⟩ := unheard
  cases phase with
  | ready => exact ⟨⟨alone, nofun⟩, nofun⟩
  | running =>
    refine ⟨⟨alone, ?_⟩, ?_⟩
    · intro o waiting h
      exact absurd h (phaseAfter_ne_notifying _ _ _ o waiting)
    · intro l
      exact eventOf_ne_notified _ _ l
  | closing o => exact ⟨⟨alone, nofun⟩, nofun⟩
  | reporting o => exact ⟨⟨alone, nofun⟩, nofun⟩
  | ending o =>
    refine ⟨⟨rfl, ?_⟩, nofun⟩
    intro o' waiting h
    cases h
    exact alone
  | notifying o waiting =>
    cases empty o waiting rfl
    exact ⟨⟨alone, nofun⟩, nofun⟩
  | ended o => exact ⟨⟨alone, nofun⟩, nofun⟩

end Processor

end Intcode
