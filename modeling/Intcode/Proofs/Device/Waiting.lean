import Intcode.Proofs.Device.Closing
import Intcode.Proofs.Device.Ledger

/-!
# Waiting for the device

A processor that finds its gate shut goes to sleep, and the relay wakes it: after each value that it
has settled, and when it has let the device go, it rings. Between the count and the ringing others
may act, and a sleeper may also wake up for no reason. Still the processor never sleeps in vain:
as long as it is kept from reading, the relay has something left to do that lets it go on.
-/

namespace Intcode

namespace Loop

variable {ι τ : Type} [Channel ι]

def waits (l : Loop ι τ) : Bool := l.reads && l.gate.shut

/-- How much is emitted and not settled yet. -/
def behind (l : Loop ι τ) : Nat := l.emitted - l.settled

/-- What the relay still owes to a processor that waits: a value that it has handled and not
counted, one in its hand, one on the line, or to let the device go. -/
def Owes (l : Loop ι τ) : Prop :=
  l.unsettled = true ∨
    match l.relay.phase with
    | .ready | .ended _ => False
    | .checking | .polling | .tallying | .flushing _ => l.line.toList ≠ []
    | .holding .. | .answering .. | .closing _ | .leaving _ => True

/-- How many acts the relay needs at most from a phase to settle a value or to let the device go. -/
def Phase.toil : Relay.Phase → Nat
  | .ready | .ended _ => 0
  | .leaving _ => 1
  | .answering .. | .closing _ => 2
  | .holding .. | .flushing 0 => 3
  | .polling | .flushing (_ + 1) => 4
  | .tallying => 5
  | .checking => 6

def toil (l : Loop ι τ) : Nat := if l.unsettled then 1 else Phase.toil l.relay.phase

omit [Channel ι] in
theorem toil_of_settled {l : Loop ι τ} (counted : l.unsettled = false) :
    l.toil = Phase.toil l.relay.phase :=
  if_neg (ne_true_of_eq_false counted)

omit [Channel ι] in
theorem toil_le (l : Loop ι τ) : l.toil ≤ 6 := by
  unfold toil Phase.toil
  split
  · omega
  · split <;> omega

omit [Channel ι] in
theorem Owes.toil_pos {l : Loop ι τ} (owes : l.Owes) : 0 < l.toil := by
  cases counted : l.unsettled with
  | true =>
    rw [toil, counted]
    exact Nat.one_pos
  | false =>
    rw [toil_of_settled counted]
    have rest := owes.resolve_left (ne_true_of_eq_false counted)
    revert rest
    cases l.relay.phase with
    | ready | ended _ => exact False.elim
    | flushing left => cases left <;> exact fun _ => Nat.zero_lt_succ _
    | _ => exact fun _ => Nat.zero_lt_succ _

omit [Channel ι] in
theorem reads_iff {l : Loop ι τ} : l.reads = true ↔
    l.uncounted = false ∧ l.cpu.phase = .running ∧ l.cpu.machine.demand = .word := by
  unfold reads
  split
  · rename_i running
    simp [running]
  · rename_i resting
    simp only [Bool.false_eq_true, false_iff]
    exact fun reading => resting reading.2.1

omit [Channel ι] in
theorem shut_iff {l : Loop ι τ} :
    l.gate.shut = true ↔ l.settled < l.emitted ∧ l.detached = false := by
  simp [gate]

/-- A processor that waits does nothing else. -/
theorem actCpu_of_waiting {l : Loop ι τ} (waits : l.waits = true) : l.actCpu.1 = l := by
  obtain ⟨reading, shut⟩ := Bool.and_eq_true_iff.mp waits
  obtain ⟨counted, running, demand⟩ := reads_iff.mp reading
  have step := Rig.step_of_word ⟨l.cpu.machine, l.gate, l.line, l.cpu.trace⟩ demand
  rw [take_of_shut shut] at step
  obtain ⟨uncounted, none, acted⟩ := actCpu_of_running counted running step fun _ => rfl
  obtain rfl : uncounted = l.uncounted := (Bool.toNat_eq_zero.mp none).trans counted.symm
  have same : l.cpu.stepped (.error .blocked) l.cpu.machine l.cpu.trace = l.cpu := by
    rw [Processor.stepped, Processor.phaseAfter, ← running]
  rw [acted, same]
  rfl

variable [Device τ] {device : τ} {input : ι} {h : List Deed} {l : Loop ι τ}

/-- Where everything is that was said and is not settled. -/
theorem Balances.outstanding (balances : Balances device input h l) :
    l.emitted + l.uncounted.toNat =
      l.settled + l.unsettled.toNat + l.relay.phase.reply.length + h.countP Deed.isFall +
        l.relay.phase.untold.length + l.line.toList.length := by
  have line := congrArg List.length balances.line
  have hand := congrArg List.length balances.hand
  have handled := balances.handled
  have finished := balances.finished
  rw [List.length_append] at line hand
  rw [balances.emitted, balances.settled]
  omega

/-- Whoever waits is owed something. -/
theorem Balances.owes (balances : Balances device input h l) (started : l.relay.phase ≠ .ready)
    (waits : l.waits = true) : l.Owes := by
  obtain ⟨reading, shut⟩ := Bool.and_eq_true_iff.mp waits
  obtain ⟨counted, -, -⟩ := reads_iff.mp reading
  obtain ⟨behind, present⟩ := shut_iff.mp shut
  have outstanding := balances.outstanding
  rw [counted, Bool.toNat_false] at outstanding
  cases unsettled : l.unsettled with
  | true => exact .inl unsettled
  | false =>
    rw [unsettled, Bool.toNat_false] at outstanding
    have unended : ¬ ∃ o, l.relay.phase = .ended o :=
      fun ended => ne_true_of_eq_false present (balances.gone.mpr ended)
    have standing : l.relay.phase.over? = none → h.countP Deed.isFall = 0 := by
      intro running
      by_contra fell
      exact balances.fallen (Nat.pos_of_ne_zero fell) running
    have queued : l.relay.phase.over? = none → l.relay.phase.reply = [] →
        l.relay.phase.untold = [] → l.line.toList ≠ [] := by
      intro running reply untold empty
      rw [standing running, reply, untold, empty] at outstanding
      simp only [List.length_nil] at outstanding
      omega
    refine .inr ?_
    cases phase : l.relay.phase with
    | ready => exact absurd phase started
    | ended o => exact absurd ⟨o, phase⟩ unended
    | holding | answering | closing | leaving => trivial
    | checking | polling | tallying | flushing =>
      rw [phase] at queued
      exact queued rfl rfl rfl

/-- What the relay does for a processor that waits takes it closer to a release. -/
theorem Owes.toil_actRelay (owes : l.Owes) (unreleased : l.relayDeeds.any Deed.isRelease = false) :
    l.actRelay.1.toil < l.toil := by
  cases counted : l.unsettled with
  | true =>
    rw [relayDeeds, counted] at unreleased
    cases unreleased
  | false =>
    have rest := owes.resolve_left (ne_true_of_eq_false counted)
    have acted := actRelay_eq counted
    rw [toil_of_settled counted]
    cases phase : l.relay.phase with
    | ready | ended o =>
      rw [phase] at rest
      exact rest.elim
    | leaving o =>
      rw [relayDeeds, counted, phase] at unreleased
      cases unreleased
    | closing o =>
      simp only [Relay.act, phase] at acted
      rw [acted]
      exact (by decide : 1 < 2)
    | checking =>
      simp only [Relay.act, phase] at acted
      cases stopped : l.relay.stopped with
      | true =>
        rw [if_pos stopped] at acted
        rw [acted]
        exact (by decide : 5 < 6)
      | false =>
        rw [if_neg (ne_true_of_eq_false stopped)] at acted
        rw [acted]
        exact (by decide : 4 < 6)
    | tallying =>
      simp only [Relay.act, phase] at acted
      rw [acted]
      cases Channel.pending l.line with
      | zero => exact (by decide : 3 < 5)
      | succ queued => exact (by decide : 4 < 5)
    | polling =>
      rw [phase] at rest
      simp only [Relay.act, phase] at acted
      obtain ⟨v, queued, contents⟩ := List.exists_cons_of_ne_nil rest
      obtain ⟨line, polled, -, -⟩ := Wire.poll_of_cons contents
      rw [polled] at acted
      rw [acted]
      exact (by decide : 3 < 4)
    | flushing left =>
      cases left with
      | zero =>
        simp only [Relay.act, phase] at acted
        rw [acted]
        exact (by decide : 2 < 3)
      | succ left =>
        rw [phase] at rest
        simp only [Relay.act, phase] at acted
        obtain ⟨v, queued, contents⟩ := List.exists_cons_of_ne_nil rest
        obtain ⟨line, polled, -, -⟩ := Wire.poll_of_cons contents
        rw [polled] at acted
        rw [acted]
        exact (by decide : 3 < 4)
    | holding v left =>
      simp only [Relay.act, phase] at acted
      rw [acted]
      cases (Device.respond l.relay.device v).answer with
      | reply w => exact (by decide : 2 < 3)
      | silent => exact (by decide : 1 < 3)
      | crash => exact (by decide : 1 < 3)
    | answering w left =>
      simp only [Relay.act, phase] at acted
      rw [acted]
      generalize Channel.put l.input w = given
      obtain ⟨accepted, input⟩ := given
      cases accepted with
      | ok u => exact (by decide : 1 < 2)
      | error s => cases s <;> exact (by decide : 1 < 2)

theorem actRelay_cpu (l : Loop ι τ) :
    l.actRelay.1.cpu = l.cpu ∧ l.actRelay.1.emitted = l.emitted ∧
      l.actRelay.1.uncounted = l.uncounted := by
  obtain ⟨cpu, relay, input, line, emitted, settled, detached, uncounted, unsettled⟩ := l
  cases unsettled <;> exact ⟨rfl, rfl, rfl⟩

theorem reads_actRelay (l : Loop ι τ) : l.actRelay.1.reads = l.reads := by
  obtain ⟨cpu, -, uncounted⟩ := actRelay_cpu l
  rw [reads, reads, cpu, uncounted]

/-- The relay opens the gate only by what it writes down. -/
theorem actRelay_unreleased (unreleased : l.relayDeeds.any Deed.isRelease = false) :
    l.actRelay.1.settled = l.settled ∧ l.actRelay.1.detached = l.detached := by
  have enters := enters_actRelay l
  have apart := List.any_eq_false.mp unreleased
  constructor
  · rw [enters.settled, List.count_eq_zero.mpr fun mem => apart _ mem rfl, Nat.add_zero]
  · refine Bool.eq_iff_iff.mpr (enters.detached.trans (or_iff_left fun mem => apart _ mem rfl))

theorem waits_actRelay (unreleased : l.relayDeeds.any Deed.isRelease = false) :
    l.actRelay.1.waits = l.waits := by
  obtain ⟨-, emitted, -⟩ := actRelay_cpu l
  obtain ⟨settled, detached⟩ := actRelay_unreleased unreleased
  simp only [waits, gate, reads_actRelay, emitted, settled, detached]

theorem actRelay_released (released : l.relayDeeds.any Deed.isRelease = true) :
    l.settled < l.actRelay.1.settled ∨ l.actRelay.1.detached = true := by
  have enters := enters_actRelay l
  obtain ⟨d, mem, release⟩ := List.any_eq_true.mp released
  cases d with
  | settled =>
    have one := List.count_pos_iff.mpr mem
    have count := enters.settled
    exact .inl (by omega)
  | detached => exact .inr (enters.detached.mpr (.inr mem))
  | _ => cases release

/-- What the relay does never shuts the gate. -/
theorem open_actRelay (through : l.gate.shut = false) : l.actRelay.1.gate.shut = false := by
  have enters := enters_actRelay l
  rw [Bool.eq_false_iff, Ne, shut_iff, not_and, Bool.not_eq_false] at through ⊢
  rw [(actRelay_cpu l).2.1, enters.detached, enters.settled]
  intro behind
  exact .inl (through (by omega))

theorem started_actRelay (started : l.relay.phase ≠ .ready) :
    l.actRelay.1.relay.phase ≠ .ready := by
  cases counted : l.unsettled with
  | true =>
    rw [actRelay_of_unsettled counted]
    exact started
  | false =>
    let c : Relay.Course τ Wire ι := { relay := l.relay, input := l.line, output := l.input }
    have relay : l.actRelay.1.relay = c.act.relay := by
      rw [actRelay_eq counted, c.act_eq.1]
    rw [relay]
    rcases c.act_keeps.phase with busy | same | ⟨o, -, ended⟩
    · intro ready
      rw [ready] at busy
      cases busy
    · rw [same]
      exact started
    · rw [ended]
      nofun

end Loop

/-- A device loop whose processor sleeps while it waits for the device. -/
structure Vigil (ι τ : Type) where
  loop : Loop ι τ
  /-- Whether the processor sleeps. -/
  asleep : Bool := false
  /-- Whether the relay has opened the gate, perhaps, and is still to wake the processor. -/
  ringing : Bool := false

namespace Vigil

inductive Stir where
  /-- The processor's turn. -/
  | cpu
  /-- The relay's turn. -/
  | relay
  /-- The processor wakes up for no reason. -/
  | wake
  /-- Somebody else uses the input. -/
  | use (use : Use)
  deriving DecidableEq

variable {ι τ : Type} [Channel ι] [Device τ]

def load (id : String) (p : Program) (input : ι) (device : τ) (debug : Bool) : Vigil ι τ :=
  { loop := .load id p input device debug }

def next (v : Vigil ι τ) : Stir → Vigil ι τ
  | .cpu =>
    if v.asleep then v
    else if v.loop.waits then { v with asleep := true }
    else { v with loop := v.loop.actCpu.1 }
  | .relay =>
    if v.ringing then { v with asleep := false, ringing := false }
    else { v with loop := v.loop.actRelay.1, ringing := v.loop.relayDeeds.any Loop.Deed.isRelease }
  | .wake => { v with asleep := false }
  | .use use => { v with loop := { v.loop with input := use.on v.loop.input } }

def deeds (v : Vigil ι τ) : Stir → List Loop.Deed
  | .cpu => if v.asleep || v.loop.waits then [] else v.loop.cpuDeeds
  | .relay => if v.ringing then [] else v.loop.relayDeeds
  | .wake => []
  | .use use => [.used use]

def run (v : Vigil ι τ) (stirs : List Stir) : Vigil ι τ := stirs.foldl next v

def ledger (v : Vigil ι τ) : List Stir → List Loop.Deed
  | [] => []
  | stir :: stirs => v.deeds stir ++ (v.next stir).ledger stirs

/-- A loop whose ledger balances and whose processor sleeps only while it waits, or until the relay
has rung. -/
structure Sound (device : τ) (input : ι) (h : List Loop.Deed) (v : Vigil ι τ) : Prop where
  balances : Loop.Balances device input h v.loop
  started : v.loop.relay.phase ≠ .ready
  reading : v.asleep = true → v.loop.reads = true
  heard : v.asleep = true → v.ringing = false → v.loop.waits = true

variable {device : τ} {input : ι} {h : List Loop.Deed} {v : Vigil ι τ}

theorem sound_load (id : String) (p : Program) (input : ι) (device : τ) (debug : Bool) :
    Sound device input [] (load id p input device debug) :=
  ⟨Loop.balances_load id p input device debug, nofun, nofun, nofun⟩

theorem next_of_asleep (asleep : v.asleep = true) : v.next .cpu = v ∧ v.deeds .cpu = [] :=
  ⟨if_pos asleep, if_pos (by rw [asleep]; rfl)⟩

theorem next_of_waiting (awake : v.asleep = false) (waits : v.loop.waits = true) :
    v.next .cpu = { v with asleep := true } ∧ v.deeds .cpu = [] :=
  ⟨(if_neg (ne_true_of_eq_false awake)).trans (if_pos waits),
    if_pos (by rw [waits, Bool.or_true])⟩

theorem next_of_free (awake : v.asleep = false) (free : v.loop.waits = false) :
    v.next .cpu = { v with loop := v.loop.actCpu.1 } ∧ v.deeds .cpu = v.loop.cpuDeeds :=
  ⟨(if_neg (ne_true_of_eq_false awake)).trans (if_neg (ne_true_of_eq_false free)),
    if_neg (by rw [awake, free]; nofun)⟩

theorem next_of_ringing (ringing : v.ringing = true) :
    v.next .relay = { v with asleep := false, ringing := false } ∧ v.deeds .relay = [] :=
  ⟨if_pos ringing, if_pos ringing⟩

theorem next_of_quiet (quiet : v.ringing = false) :
    v.next .relay =
        { v with
          loop := v.loop.actRelay.1
          ringing := v.loop.relayDeeds.any Loop.Deed.isRelease } ∧
      v.deeds .relay = v.loop.relayDeeds :=
  ⟨if_neg (ne_true_of_eq_false quiet), if_neg (ne_true_of_eq_false quiet)⟩

theorem Sound.next (sound : Sound device input h v) (stir : Stir) :
    Sound device input (h ++ v.deeds stir) (v.next stir) := by
  obtain ⟨balances, started, reading, heard⟩ := sound
  have idle : Loop.Balances device input (h ++ []) v.loop := by
    rw [List.append_nil]
    exact balances
  cases stir with
  | cpu =>
    cases asleep : v.asleep with
    | true =>
      obtain ⟨same, nothing⟩ := next_of_asleep asleep
      rw [same, nothing]
      exact ⟨idle, started, reading, heard⟩
    | false =>
      cases waits : v.loop.waits with
      | true =>
        obtain ⟨sleeps, nothing⟩ := next_of_waiting asleep waits
        rw [sleeps, nothing]
        exact ⟨idle, started, fun _ => (Bool.and_eq_true_iff.mp waits).1, fun _ _ => waits⟩
      | false =>
        obtain ⟨acts, deeds⟩ := next_of_free asleep waits
        rw [acts, deeds]
        have sleepless := ne_true_of_eq_false asleep
        refine ⟨balances.enter (Loop.enters_actCpu _), ?_, (absurd · sleepless),
          (absurd · sleepless)⟩
        rw [(Loop.relay_actCpu v.loop).2.1]
        exact started
  | relay =>
    cases ringing : v.ringing with
    | true =>
      obtain ⟨rings, nothing⟩ := next_of_ringing ringing
      rw [rings, nothing]
      exact ⟨idle, started, nofun, nofun⟩
    | false =>
      obtain ⟨acts, deeds⟩ := next_of_quiet ringing
      rw [acts, deeds]
      refine ⟨balances.enter (Loop.enters_actRelay _), Loop.started_actRelay started, ?_, ?_⟩
      · exact fun asleep => (Loop.reads_actRelay _).trans (reading asleep)
      · intro asleep unreleased
        exact (Loop.waits_actRelay unreleased).trans (heard asleep ringing)
  | wake => exact ⟨idle, started, nofun, nofun⟩
  | use use => exact ⟨balances.enter (Loop.enters_use _ use), started, reading, heard⟩

/-- Whatever happens, the ledger balances and the processor does not sleep too long. -/
theorem Sound.run (sound : Sound device input h v) (stirs : List Stir) :
    Sound device input (h ++ v.ledger stirs) (v.run stirs) := by
  induction stirs generalizing h v with
  | nil =>
    rw [ledger, List.append_nil]
    exact sound
  | cons stir stirs ih =>
    have after := ih (sound.next stir)
    rw [List.append_assoc] at after
    exact after

/-- How many turns of the relay it takes at most until a value is settled or the device let go. -/
def patience (v : Vigil ι τ) : Nat := v.loop.toil + v.ringing.toNat

/-- How many turns of the relay it takes at most until the processor is awake and may read. -/
def delay (v : Vigil ι τ) : Nat :=
  if v.loop.waits then 7 * (v.loop.behind - 1) + v.loop.toil + 1 + v.ringing.toNat
  else v.asleep.toNat

/-- What each turn of the relay brings closer, and nothing else takes away, is reached. -/
theorem reaches_goal (Inv goal : Vigil ι τ → Prop) (f : Vigil ι τ → Nat)
    (pending : ∀ v, Inv v → 0 < f v)
    (closer : ∀ v stir, Inv v →
      goal (v.next stir) ∨ Inv (v.next stir) ∧ f (v.next stir) + [stir].count .relay ≤ f v)
    (later : List Stir) (here : Inv v) (enough : f v ≤ later.count .relay) :
    ∃ part, part <+: later ∧ goal (v.run part) := by
  induction later generalizing v with
  | nil =>
    have some := pending v here
    rw [List.count_nil] at enough
    omega
  | cons stir later ih =>
    rcases closer v stir here with reached | ⟨there, step⟩
    · exact ⟨[stir], ⟨later, rfl⟩, reached⟩
    · have count : (stir :: later).count .relay = [stir].count .relay + later.count .relay := by
        rw [← List.count_append]
        rfl
      obtain ⟨part, ⟨rest, rfl⟩, reached⟩ := ih there (by omega)
      exact ⟨stir :: part, ⟨rest, rfl⟩, reached⟩

/-- Only the relay gets anything done for a processor that sleeps or waits. -/
theorem next_of_blocked (blocked : v.asleep = true ∨ v.loop.waits = true) :
    v.next .cpu = { v with asleep := true } := by
  cases asleep : v.asleep with
  | true =>
    rw [(next_of_asleep asleep).1, ← asleep]
  | false =>
    have waits := blocked.resolve_left (ne_true_of_eq_false asleep)
    exact (next_of_waiting asleep waits).1

/-- While the processor waits, each turn of the relay brings it closer to settle a value or to let
the device go. -/
theorem patience_next (sound : ∃ h, Sound device input h v) (waits : v.loop.waits = true)
    (stir : Stir) :
    (v.loop.settled < (v.next stir).loop.settled ∨ (v.next stir).loop.detached = true) ∨
      ((v.next stir).loop.waits = true ∧ (v.next stir).loop.settled = v.loop.settled) ∧
        (v.next stir).patience + [stir].count .relay ≤ v.patience := by
  obtain ⟨h, sound⟩ := sound
  have owes := sound.balances.owes sound.started waits
  cases stir with
  | cpu =>
    rw [next_of_blocked (.inr waits)]
    exact .inr ⟨⟨waits, rfl⟩, Nat.le_refl _⟩
  | wake => exact .inr ⟨⟨waits, rfl⟩, Nat.le_refl _⟩
  | use use => exact .inr ⟨⟨waits, rfl⟩, Nat.le_refl _⟩
  | relay =>
    cases ringing : v.ringing with
    | true =>
      rw [(next_of_ringing ringing).1]
      refine .inr ⟨⟨waits, rfl⟩, ?_⟩
      rw [patience, patience, ringing]
      exact Nat.le_refl _
    | false =>
      rw [(next_of_quiet ringing).1]
      cases released : v.loop.relayDeeds.any Loop.Deed.isRelease with
      | true => exact .inl (Loop.actRelay_released released)
      | false =>
        have less := owes.toil_actRelay released
        refine .inr ⟨⟨?_, (Loop.actRelay_unreleased released).1⟩, ?_⟩
        · exact (Loop.waits_actRelay released).trans waits
        · simp only [patience, ringing, List.count_singleton_self, Bool.toNat_false]
          exact less

omit [Channel ι] [Device τ] in
theorem delay_of_waiting (waits : v.loop.waits = true) :
    v.delay = 7 * (v.loop.behind - 1) + v.loop.toil + 1 + v.ringing.toNat :=
  if_pos waits

omit [Channel ι] [Device τ] in
theorem delay_of_free (free : v.loop.waits = false) : v.delay = v.asleep.toNat :=
  if_neg (ne_true_of_eq_false free)

omit [Channel ι] [Device τ] in
theorem delay_asleep (waits : v.loop.waits = true) (asleep : Bool) :
    delay { v with asleep } = v.delay :=
  (if_pos waits).trans (if_pos waits).symm

omit [Channel ι] [Device τ] in
theorem delay_le (v : Vigil ι τ) : v.delay ≤ 7 * v.loop.behind + 1 := by
  have toil := v.loop.toil_le
  have ringing := v.ringing.toNat_le
  have asleep := v.asleep.toNat_le
  cases waits : v.loop.waits with
  | true =>
    have shut := Loop.shut_iff.mp (Bool.and_eq_true_iff.mp waits).2
    rw [delay_of_waiting waits, Loop.behind]
    omega
  | false =>
    rw [delay_of_free waits]
    omega

/-- A value that is settled is worth more than all that can be due after it: the turns until the
next release are six at most, and one more to ring, while a value counts seven. -/
theorem delay_of_released (owes : v.loop.Owes) (waits : v.loop.waits = true)
    (quiet : v.ringing = false) (released : v.loop.relayDeeds.any Loop.Deed.isRelease = true) :
    (v.next .relay).delay < v.delay := by
  have toil := owes.toil_pos
  rw [delay_of_waiting waits, (next_of_quiet quiet).1, released]
  cases still : v.loop.actRelay.1.waits with
  | false =>
    have asleep := v.asleep.toNat_le
    rw [delay_of_free still]
    dsimp only
    omega
  | true =>
    have toil' := v.loop.actRelay.1.toil_le
    obtain ⟨behind, present⟩ := Loop.shut_iff.mp (Bool.and_eq_true_iff.mp still).2
    have settled :=
      (Loop.actRelay_released released).resolve_right (ne_true_of_eq_false present)
    rw [delay_of_waiting still]
    simp only [Loop.behind, Bool.toNat_true]
    rw [(Loop.actRelay_cpu v.loop).2.1] at behind ⊢
    omega

/-- While the processor sleeps or waits, each turn of the relay brings it closer to read. -/
theorem delay_next (sound : ∃ h, Sound device input h v)
    (blocked : v.asleep = true ∨ v.loop.waits = true) (stir : Stir) :
    (v.next stir).loop.cpu = v.loop.cpu ∧ (v.next stir).loop.reads = v.loop.reads ∧
      ((v.next stir).asleep = false ∧ (v.next stir).loop.waits = false ∨
        ((v.next stir).asleep = true ∨ (v.next stir).loop.waits = true) ∧
          (v.next stir).delay + [stir].count .relay ≤ v.delay) := by
  obtain ⟨h, sound⟩ := sound
  cases stir with
  | cpu =>
    cases asleep : v.asleep with
    | true =>
      rw [(next_of_asleep asleep).1]
      exact ⟨rfl, rfl, .inr ⟨.inl asleep, Nat.le_refl _⟩⟩
    | false =>
      have waits := blocked.resolve_left (ne_true_of_eq_false asleep)
      rw [(next_of_waiting asleep waits).1]
      exact ⟨rfl, rfl, .inr ⟨.inl rfl, Nat.le_of_eq (delay_asleep waits true)⟩⟩
  | wake =>
    refine ⟨rfl, rfl, ?_⟩
    cases waits : v.loop.waits with
    | true => exact .inr ⟨.inr waits, Nat.le_of_eq (delay_asleep waits false)⟩
    | false => exact .inl ⟨rfl, waits⟩
  | use use => exact ⟨rfl, rfl, .inr ⟨blocked, Nat.le_refl _⟩⟩
  | relay =>
    cases ringing : v.ringing with
    | true =>
      rw [(next_of_ringing ringing).1]
      refine ⟨rfl, rfl, ?_⟩
      cases waits : v.loop.waits with
      | true =>
        refine .inr ⟨.inr rfl, ?_⟩
        have before := delay_of_waiting waits
        rw [ringing] at before
        rw [before, delay_of_waiting]
        · exact Nat.le_refl _
        · exact waits
      | false => exact .inl ⟨rfl, rfl⟩
    | false =>
      have waits : v.loop.waits = true := blocked.elim (fun asleep => sound.heard asleep ringing) id
      have owes := sound.balances.owes sound.started waits
      have next := (next_of_quiet ringing).1
      refine ⟨?_, ?_, ?_⟩
      · rw [next]
        exact (Loop.actRelay_cpu v.loop).1
      · rw [next]
        exact Loop.reads_actRelay v.loop
      · cases released : v.loop.relayDeeds.any Loop.Deed.isRelease with
        | true =>
          have less := delay_of_released owes waits ringing released
          by_cases still : (v.next .relay).asleep = true ∨ (v.next .relay).loop.waits = true
          · exact .inr ⟨still, less⟩
          · rw [not_or, Bool.not_eq_true, Bool.not_eq_true] at still
            exact .inl still
        | false =>
          have less := owes.toil_actRelay released
          obtain ⟨settled, -⟩ := Loop.actRelay_unreleased released
          have waits' := (Loop.waits_actRelay released).trans waits
          rw [next, released]
          refine .inr ⟨.inr waits', ?_⟩
          rw [delay_of_waiting waits, delay_of_waiting waits', ringing, List.count_singleton_self]
          simp only [Loop.behind, settled, (Loop.actRelay_cpu v.loop).2.1]
          omega

structure InStep (device : τ) (input : ι) (h : List Loop.Deed) (v : Vigil ι τ) : Prop where
  /-- Each value that the device has finished with is settled once, whether there was a reply or
  not and whether the reply was accepted or not. -/
  settled : h.countP Loop.Deed.isFinish = h.count .settled + v.loop.unsettled.toNat ∧
    v.loop.settled = h.count .settled
  /-- The device has finished with every value that it was told, but for one whose reply the relay
  still has in its hand and one that has brought the relay down. -/
  handled : (Loop.tolds h).length = h.countP Loop.Deed.isFinish +
    v.loop.relay.phase.reply.length + h.countP Loop.Deed.isFall
  /-- No more is settled than was put on the line. -/
  bounded : v.loop.settled ≤ (Loop.saids h).length
  /-- The input has become what its users have made of it, with every reply among that. -/
  input : v.loop.input = Loop.used input h
  /-- A processor that sleeps has a reason, or is about to be woken. -/
  heard : v.asleep = true → v.loop.waits = true ∨ v.ringing = true
  /-- If the processor waits, the relay owes it something. -/
  owes : v.loop.waits = true → v.loop.Owes
  /-- If the processor waits, a value is settled or the device let go after seven turns of the
  relay, whatever else happens meanwhile. -/
  release : v.loop.waits = true → ∀ later : List Stir, 7 ≤ later.count .relay →
    ∃ part, part <+: later ∧ (v.loop.settled < (v.run part).loop.settled ∨
      (v.run part).loop.detached = true)
  /-- If the processor waits or sleeps, the relay lets it go on, whatever else happens
  meanwhile. -/
  wakes : v.asleep = true ∨ v.loop.waits = true → ∀ later : List Stir,
    7 * v.loop.behind + 1 ≤ later.count .relay →
    ∃ part, part <+: later ∧ (v.run part).asleep = false ∧ (v.run part).loop.cpu = v.loop.cpu ∧
      (v.run part).loop.reads = true ∧ (v.run part).loop.gate.shut = false
  /-- A gate that is open stays open until the processor acts. -/
  opened : v.loop.gate.shut = false → ∀ later : List Stir, .cpu ∉ later →
    (v.run later).loop.gate.shut = false
  /-- Whenever the gate is open to the processor and the device is still there, everything that was
  said has been taken and handled and each reply has been put. -/
  even : v.loop.reads = true → v.loop.gate.shut = false → v.loop.detached = false →
    v.loop.line.toList = [] ∧ Loop.tolds h = Loop.saids h ∧
      h.count .settled = (Loop.saids h).length ∧
      Loop.replies h = Device.replies device (Loop.saids h)

/-- Only the processor shuts the gate. -/
theorem open_run (through : v.loop.gate.shut = false) {later : List Stir} (others : .cpu ∉ later) :
    (v.run later).loop.gate.shut = false := by
  induction later generalizing v with
  | nil => exact through
  | cons stir later ih =>
    refine ih ?_ fun mem => others (List.mem_cons_of_mem _ mem)
    cases stir with
    | cpu => exact absurd List.mem_cons_self others
    | wake => exact through
    | use use => exact through
    | relay =>
      rw [next]
      split
      · exact through
      · exact Loop.open_actRelay through

theorem Sound.even (sound : Sound device input h v) (reads : v.loop.reads = true)
    (through : v.loop.gate.shut = false) (present : v.loop.detached = false) :
    v.loop.line.toList = [] ∧ Loop.tolds h = Loop.saids h ∧
      h.count .settled = (Loop.saids h).length ∧
      Loop.replies h = Device.replies device (Loop.saids h) := by
  have balances := sound.balances
  have outstanding := balances.outstanding
  obtain ⟨counted, -, -⟩ := Loop.reads_iff.mp reads
  have caught : ¬ v.loop.settled < v.loop.emitted :=
    fun behind => ne_true_of_eq_false through (Loop.shut_iff.mpr ⟨behind, present⟩)
  rw [counted, Bool.toNat_false] at outstanding
  have line : v.loop.line.toList = [] := List.eq_nil_of_length_eq_zero (by omega)
  have untold : v.loop.relay.phase.untold = [] := List.eq_nil_of_length_eq_zero (by omega)
  have reply : v.loop.relay.phase.reply = [] := List.eq_nil_of_length_eq_zero (by omega)
  have told : Loop.tolds h = Loop.saids h := by
    have hand := balances.hand
    have taken := balances.line
    rw [untold, List.append_nil] at hand
    rw [line, List.append_nil] at taken
    exact hand.trans taken
  refine ⟨line, told, ?_, ?_⟩
  · have emitted := balances.emitted
    rw [counted, Bool.toNat_false] at emitted
    rw [← balances.settled]
    omega
  · have replied := balances.replied
    rw [reply, List.append_nil, told] at replied
    exact replied

/-- Whoever waits sees a value settled or the device let go. -/
theorem Sound.release (sound : Sound device input h v) (waits : v.loop.waits = true)
    (later : List Stir) (enough : 7 ≤ later.count .relay) :
    ∃ part, part <+: later ∧ (v.loop.settled < (v.run part).loop.settled ∨
      (v.run part).loop.detached = true) := by
  refine reaches_goal
    (fun w => (∃ h, Sound device input h w) ∧ w.loop.waits = true ∧
      w.loop.settled = v.loop.settled)
    (fun w => v.loop.settled < w.loop.settled ∨ w.loop.detached = true) patience ?_ ?_ later
    ⟨⟨h, sound⟩, waits, rfl⟩ ?_
  · rintro w ⟨⟨h, sound⟩, waits, -⟩
    have toil := (sound.balances.owes sound.started waits).toil_pos
    exact Nat.add_pos_left toil _
  · rintro w stir ⟨⟨h, sound⟩, waits, same⟩
    have closer := patience_next ⟨h, sound⟩ waits stir
    rw [same] at closer
    refine closer.imp_right ?_
    rintro ⟨⟨waits', same'⟩, step⟩
    exact ⟨⟨⟨_, sound.next stir⟩, waits', same'⟩, step⟩
  · have toil := v.loop.toil_le
    have ringing := v.ringing.toNat_le
    rw [patience]
    omega

/-- Whoever sleeps or waits gets to read. -/
theorem Sound.wakes (sound : Sound device input h v)
    (blocked : v.asleep = true ∨ v.loop.waits = true) (later : List Stir)
    (enough : 7 * v.loop.behind + 1 ≤ later.count .relay) :
    ∃ part, part <+: later ∧ (v.run part).asleep = false ∧ (v.run part).loop.cpu = v.loop.cpu ∧
      (v.run part).loop.reads = true ∧ (v.run part).loop.gate.shut = false := by
  have reading : v.loop.reads = true :=
    blocked.elim sound.reading fun waits => (Bool.and_eq_true_iff.mp waits).1
  refine reaches_goal
    (fun w => (∃ h, Sound device input h w) ∧ (w.asleep = true ∨ w.loop.waits = true) ∧
      w.loop.cpu = v.loop.cpu ∧ w.loop.reads = true)
    (fun w => w.asleep = false ∧ w.loop.cpu = v.loop.cpu ∧ w.loop.reads = true ∧
      w.loop.gate.shut = false) delay ?_ ?_ later
    ⟨⟨h, sound⟩, blocked, rfl, reading⟩ (le_trans (delay_le v) enough)
  · rintro w ⟨-, blocked, -, -⟩
    cases waits : w.loop.waits with
    | true =>
      rw [delay_of_waiting waits]
      omega
    | false =>
      rw [delay_of_free waits, blocked.resolve_right (ne_true_of_eq_false waits)]
      exact Nat.one_pos
  · rintro w stir ⟨⟨h, sound⟩, blocked, cpu, reading⟩
    obtain ⟨cpu', reading', closer⟩ := delay_next ⟨h, sound⟩ blocked stir
    rw [cpu] at cpu'
    rw [reading] at reading'
    rcases closer with ⟨awake, free⟩ | ⟨blocked', step⟩
    · refine .inl ⟨awake, cpu', reading', ?_⟩
      rw [Loop.waits, reading', Bool.true_and] at free
      exact free
    · exact .inr ⟨⟨⟨_, sound.next stir⟩, blocked', cpu', reading'⟩, step⟩

theorem Sound.inStep (sound : Sound device input h v) : InStep device input h v := by
  have balances := sound.balances
  have outstanding := balances.outstanding
  refine ⟨⟨balances.finished, balances.settled⟩, balances.handled, ?_, balances.input, ?_,
    balances.owes sound.started, sound.release, sound.wakes, fun through _ => open_run through,
    sound.even⟩
  · rw [← balances.emitted]
    omega
  · intro asleep
    cases ringing : v.ringing with
    | true => exact .inr rfl
    | false => exact .inl (sound.heard asleep ringing)

theorem reaches_next {s : Loop ι τ} (reached : Reaches s v.loop) {stir : Stir}
    (own : ∀ use, stir ≠ .use use) : Reaches s (v.next stir).loop := by
  cases stir with
  | cpu =>
    rw [next]
    split
    · exact reached
    · split
      · exact reached
      · exact reached.act 0 Nat.two_pos
  | relay =>
    rw [next]
    split
    · exact reached
    · exact reached.act 1 Nat.one_lt_two
  | wake => exact reached
  | use use => exact absurd rfl (own use)

theorem reaches_run {s : Loop ι τ} (reached : Reaches s v.loop) {stirs : List Stir}
    (own : ∀ use, .use use ∉ stirs) : Reaches s (v.run stirs).loop := by
  induction stirs generalizing v with
  | nil => exact reached
  | cons stir stirs ih =>
    refine ih (reaches_next reached ?_) fun use mem => own use (List.mem_cons_of_mem _ mem)
    rintro use rfl
    exact own use List.mem_cons_self

theorem run_append (v : Vigil ι τ) (stirs later : List Stir) :
    v.run (stirs ++ later) = (v.run stirs).run later := List.foldl_append

/-- Every loop that acts lead to is that of a run in which the processor never sleeps for long. -/
theorem run_of_reaches {s l : Loop ι τ} (reached : Reaches s l) :
    ∃ stirs, (∀ use, .use use ∉ stirs) ∧ run { loop := s } stirs = { loop := l } := by
  induction reached with
  | refl => exact ⟨[], fun _ => List.not_mem_nil, rfl⟩
  | act i reached unit ih =>
    rename_i l
    obtain ⟨stirs, own, ran⟩ := ih
    have further (later : List Stir) (quiet : ∀ use, .use use ∉ later) :
        ∀ use, .use use ∉ stirs ++ later := by
      intro use mem
      exact (List.mem_append.mp mem).elim (own use) (quiet use)
    by_cases first : i = 0
    · subst first
      cases waits : l.waits with
      | true =>
        exact ⟨stirs, own, ran.trans (congrArg (Vigil.mk · false false)
          (Loop.actCpu_of_waiting waits).symm)⟩
      | false =>
        refine ⟨stirs ++ [.cpu], further _ (by simp), ?_⟩
        rw [run_append, ran]
        exact (next_of_free (v := { loop := l }) rfl waits).1
    · obtain rfl : i = 1 := by
        have two : i < 2 := unit
        omega
      cases released : l.relayDeeds.any Loop.Deed.isRelease with
      | true =>
        refine ⟨stirs ++ [.relay, .relay], further _ (by simp), ?_⟩
        rw [run_append, ran, run, List.foldl_cons, (next_of_quiet rfl).1, released]
        rfl
      | false =>
        refine ⟨stirs ++ [.relay], further _ (by simp), ?_⟩
        rw [run_append, ran, run, List.foldl_cons, (next_of_quiet rfl).1, released]
        rfl

/-- A processor and its device keep in step, whatever the order in which the two act, and whenever
the processor wakes up by itself or somebody else uses its input: each value is settled once, and
the processor never waits in vain. As long as nobody else uses the input, this is about every loop
that acts of the two lead to. -/
theorem loop_keeps_step (id : String) (p : Program) (input : ι) (device : τ) (debug : Bool) :
    (∀ stirs, InStep device input ((load id p input device debug).ledger stirs)
      ((load id p input device debug).run stirs)) ∧
    ∀ l, Reaches (Loop.load id p input device debug) l ↔
      ∃ stirs : List Stir, (∀ use, .use use ∉ stirs) ∧
        ((load id p input device debug).run stirs).loop = l := by
  refine ⟨fun stirs => ((sound_load id p input device debug).run stirs).inStep, fun l => ⟨?_, ?_⟩⟩
  · intro reached
    obtain ⟨stirs, own, ran⟩ := run_of_reaches reached
    exact ⟨stirs, own, congrArg loop ran⟩
  · rintro ⟨stirs, own, rfl⟩
    exact reaches_run (v := load id p input device debug) .refl own

/-- A processor that reads before the device has answered falls asleep, and eight turns of the relay
let it go on. -/
example :
    let v : Vigil Endpoint Passing := load "main" Loop.echo (.wire {}) {} false
    let w := v.run (.replicate 3 .cpu)
    w.asleep = true ∧ w.loop.waits = true ∧ w.loop.behind = 1 ∧
      (w.run (.replicate 8 .relay)).asleep = false ∧
      (w.run (.replicate 8 .relay)).loop.gate.shut = false := by
  decide +kernel

end Vigil

end Intcode
