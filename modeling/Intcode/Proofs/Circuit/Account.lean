import Intcode.Circuit.Ring
import Intcode.Proofs.Circuit.Row
import Intcode.Proofs.Relay.Phase

/-!
# The account of a ring

The stages of a ring and its relay may act in any order, and the relay may be stopped while values
are on their way. `Sound` keeps account of the values that the last stage emitted: they were
relayed, are in the hand of the relay or are still queued, in this order. Every act preserves it.
-/

namespace Intcode

namespace Ring

/-- What the last stage of a ring emits if a unit acts. -/
def sentByTail (r : Ring) (i : Nat) : List Word := Stage.tailWords i r.stages r.outlet

/-- The account of a ring whose last stage has emitted `sent`, of which the relay has put `relayed`
into the inbox of the first stage. -/
structure Sound (p : Program) (debug : Bool) (phase signal : Word) (phases sent relayed : List Word)
    (r : Ring) : Prop where
  row : Stage.Row p debug 0 (phase :: signal :: relayed) phases r.stages r.outlet sent
  account : relayed ++ r.relay.phase.hand ++ r.outlet.toList = sent
  last : r.relay.device.last = (relayed ++ r.relay.phase.reply).getLast?
  sealing : Stage.headClosed r.stages = true → r.relay.phase.isGone = true
  ending : ∀ o, r.relay.phase.over? = some o → o = .ok () ∧
    (Stage.headOver? r.stages ≠ none ∨ Stage.tailOver? r.stages ≠ none ∧ r.outlet.toList = [])
  stopped : r.relay.stopped = true → Stage.headOver? r.stages ≠ none
  stopping : r.relay.phase.isStopping = true → Stage.headOver? r.stages ≠ none
  backlog : ∀ left, r.relay.phase.left? = some left → left ≤ r.outlet.toList.length
  starved : Stage.headOver? r.stages = some (.error .notConnected) →
    Stage.tailOver? r.stages ≠ none ∧ relayed = sent

variable {p : Program} {debug : Bool} {phase signal : Word} {phases sent relayed : List Word}

theorem sound_load (p : Program) (debug : Bool) (phase signal : Word) (phases : List Word) :
    Sound p debug phase signal phases [] [] (load p (phase :: phases) signal debug) := by
  have inbox : ((Wire.ofList [phase]).push signal).2.toList = [phase, signal] := rfl
  exact ⟨.start _ inbox rfl rfl rfl phases, rfl, rfl, nofun, nofun, nofun, nofun, nofun, nofun⟩

/-- What an act of a stage does to the relay: only a notification stops it. -/
theorem relay_actStage (r : Ring) (i : Nat) :
    (r.actStage i).1.relay.phase = r.relay.phase ∧
      (r.actStage i).1.relay.device = r.relay.device ∧
      ((r.actStage i).1.relay.stopped = true →
        r.relay.stopped = true ∨ (Stage.actAt i r.stages r.outlet).1 = .notified ()) := by
  rw [actStage]
  obtain ⟨event, stages, outlet⟩ := Stage.actAt i r.stages r.outlet
  cases event with
  | notified l => exact ⟨rfl, rfl, fun _ => Or.inr rfl⟩
  | idle => exact ⟨rfl, rfl, Or.inl⟩
  | moved => exact ⟨rfl, rfl, Or.inl⟩
  | sent v => exact ⟨rfl, rfl, Or.inl⟩

/-- When the first stage starves, the last one is over and all that it emitted has been relayed. -/
theorem Sound.before_starving {r : Ring}
    (sound : Sound p debug phase signal phases sent relayed r) {i : Nat}
    (here : i < r.stages.length)
    (starved : Stage.headOver? (r.actStage i).1.stages = some (.error .notConnected)) :
    Stage.tailOver? r.stages ≠ none ∧ relayed = sent := by
  have moves := (sound.row.act here).2
  rcases moves.starves starved with already | closed
  · exact sound.starved already
  · obtain ⟨o, ended⟩ := Relay.Phase.over?_of_isGone (sound.sealing closed)
    rcases (sound.ending o ended).2 with head | ⟨tail, empty⟩
    · exact sound.starved ((moves.headStays head).symm.trans starved)
    · have account := sound.account
      rw [Relay.Phase.hand_of_over ended, empty, List.append_nil, List.append_nil] at account
      exact ⟨tail, account⟩

/-- An act of a stage. Only the first stage can stop the relay, and not before it is over. -/
theorem Sound.actStage {r : Ring} (sound : Sound p debug phase signal phases sent relayed r)
    {i : Nat} (here : i < r.stages.length) :
    Sound p debug phase signal phases (sent ++ sentByTail r i) relayed (r.actStage i).1 := by
  obtain ⟨row, moves⟩ := sound.row.act here
  obtain ⟨samePhase, sameDevice, stops⟩ := relay_actStage r i
  have said : (r.actStage i).1.outlet.toList = r.outlet.toList ++ sentByTail r i := moves.said
  have headOver : Stage.headOver? r.stages ≠ none →
      Stage.headOver? (Stage.actAt i r.stages r.outlet).2.1 ≠ none := by
    intro finished
    rw [moves.headStays finished]
    exact finished
  refine ⟨row, ?_, ?_, ?_, ?_, ?_, ?_, ?_, ?_⟩
  · rw [samePhase, said, ← List.append_assoc, sound.account]
  · rw [samePhase, sameDevice]
    exact sound.last
  · rw [samePhase]
    intro closed
    exact sound.sealing (moves.sealing.symm.trans closed)
  · rw [samePhase]
    intro o ended
    obtain ⟨ok, why⟩ := sound.ending o ended
    refine ⟨ok, why.imp headOver ?_⟩
    rintro ⟨tail, empty⟩
    obtain ⟨quiet, same⟩ := moves.tailStays tail
    refine ⟨fun running => tail (same.symm.trans running), ?_⟩
    exact moves.said.trans (by rw [empty, quiet]; rfl)
  · intro stopped
    rcases stops stopped with before | notified
    · exact headOver (sound.stopped before)
    · exact headOver (moves.notifies notified).1
  · rw [samePhase]
    exact fun stopping => headOver (sound.stopping stopping)
  · rw [samePhase]
    intro left noted
    have enough := sound.backlog left noted
    rw [said, List.length_append]
    omega
  · intro starved
    have before := sound.before_starving here starved
    obtain ⟨quiet, same⟩ := moves.tailStays before.1
    refine ⟨fun running => before.1 (same.symm.trans running), ?_⟩
    rw [sentByTail, quiet, List.append_nil]
    exact before.2

/-- The relay goes on to another phase with the same value in its hand. -/
theorem Sound.turn {stages : List Stage} {outlet : Wire} {relay : Relay Passing}
    (sound : Sound p debug phase signal phases sent relayed ⟨stages, outlet, relay⟩)
    {next : Relay.Phase} (hand : next.hand = relay.phase.hand)
    (reply : next.reply = relay.phase.reply) (gone : relay.phase.isGone = true → next.isGone = true)
    (ending : ∀ o, next.over? = some o → o = .ok () ∧
      (Stage.headOver? stages ≠ none ∨ Stage.tailOver? stages ≠ none ∧ outlet.toList = []))
    (stopping : next.isStopping = true → Stage.headOver? stages ≠ none)
    (backlog : ∀ left, next.left? = some left → left ≤ outlet.toList.length) :
    Sound p debug phase signal phases sent relayed
      ⟨stages, outlet, { relay with phase := next }⟩ := by
  refine ⟨sound.row, ?_, ?_, fun closed => gone (sound.sealing closed), ending, sound.stopped,
    stopping, backlog, sound.starved⟩
  · simp only [hand]
    exact sound.account
  · simp only [reply]
    exact sound.last

/-- The relay takes a value from the outlet. -/
theorem Sound.take {stages : List Stage} {outlet outlet' : Wire} {relay : Relay Passing} {v : Word}
    (sound : Sound p debug phase signal phases sent relayed ⟨stages, outlet, relay⟩)
    (hand : relay.phase.hand = []) (reply : relay.phase.reply = [])
    (ungone : relay.phase.isGone = false) (next : outlet.toList = v :: outlet'.toList)
    (same : outlet'.closed = outlet.closed) {left : Option Nat}
    (stopping : left ≠ none → Stage.headOver? stages ≠ none)
    (backlog : ∀ n, left = some n → n ≤ outlet'.toList.length) :
    Sound p debug phase signal phases sent relayed
      ⟨stages, outlet', { relay with phase := .holding v left }⟩ := by
  have account := sound.account
  have last := sound.last
  simp only [hand, reply, next, List.append_nil] at account last
  refine ⟨sound.row.drain same, ?_, ?_, ?_, nofun, sound.stopped, ?_, backlog, sound.starved⟩
  · simp only [Relay.Phase.hand, List.append_assoc]
    exact account
  · rw [← List.append_nil relayed] at last
    exact last
  · intro closed
    rw [sound.sealing closed] at ungone
    cases ungone
  · intro noticed
    exact stopping (Option.isSome_iff_ne_none.mp noticed)

/-- The relay has told a value to its device. -/
theorem Sound.tell {stages : List Stage} {outlet : Wire} {relay : Relay Passing} {v : Word}
    {left : Option Nat}
    (sound : Sound p debug phase signal phases sent relayed ⟨stages, outlet, relay⟩)
    (holding : relay.phase = .holding v left) :
    Sound p debug phase signal phases sent relayed
      ⟨stages, outlet,
        { relay with device := { last := some v }, phase := .answering v left }⟩ := by
  obtain ⟨row, account, last, sealing, ending, stopped, stopping, backlog, starved⟩ := sound
  simp only [holding] at account sealing stopping backlog
  refine ⟨row, account, ?_, sealing, nofun, stopped, stopping, backlog, starved⟩
  exact List.getLast?_concat.symm

/-- The relay puts a value into the inbox of the first stage. -/
theorem Sound.put {cpu : Processor Unit} {inbox inbox' outlet : Wire} {rest : List Stage}
    {relay : Relay Passing} {v : Word} {left : Option Nat}
    (sound : Sound p debug phase signal phases sent relayed ⟨⟨cpu, inbox⟩ :: rest, outlet, relay⟩)
    (answering : relay.phase = .answering v left) (appended : inbox'.toList = inbox.toList ++ [v])
    (accepts : inbox'.closed = false) :
    Sound p debug phase signal phases sent (relayed ++ [v])
      ⟨⟨cpu, inbox'⟩ :: rest, outlet, { relay with phase := Relay.resume left }⟩ := by
  obtain ⟨row, account, last, sealing, ending, stopped, stopping, backlog, starved⟩ := sound
  simp only [answering] at account last sealing stopping backlog
  have unstarved : Stage.headOver? (⟨cpu, inbox⟩ :: rest) ≠ some (.error .notConnected) := by
    intro starving
    have whole := congrArg List.length ((starved starving).2.trans account.symm)
    simp only [List.length_append, Relay.Phase.hand, List.length_singleton] at whole
    omega
  have fed := row.feed inbox' [v] (fun starving => absurd starving unstarved) appended
  refine ⟨fed, ?_, ?_, ?_, ?_, stopped, ?_, ?_, fun starving => absurd starving unstarved⟩
  · cases left <;> exact (congrArg (· ++ outlet.toList) (List.append_nil _)).trans account
  · cases left <;> exact last.trans (congrArg List.getLast? (List.append_nil _).symm)
  · intro closed
    rw [Stage.headClosed_cons, accepts] at closed
    cases closed
  · cases left <;> nofun
  · cases left with
    | none => nofun
    | some n => exact fun _ => stopping rfl
  · cases left with
    | none => nofun
    | some n => exact backlog

/-- The relay closes the inbox of the first stage. -/
theorem Sound.leave {cpu : Processor Unit} {inbox outlet : Wire} {rest : List Stage}
    {relay : Relay Passing} {o : Relay.Outcome}
    (sound : Sound p debug phase signal phases sent relayed ⟨⟨cpu, inbox⟩ :: rest, outlet, relay⟩)
    (closing : relay.phase = .closing o) :
    Sound p debug phase signal phases sent relayed
      ⟨⟨cpu, inbox.close⟩ :: rest, outlet, { relay with phase := .leaving o }⟩ := by
  obtain ⟨row, account, last, sealing, ending, stopped, stopping, backlog, starved⟩ := sound
  simp only [closing] at account last ending
  have fed := row.feed inbox.close [] (fun _ => rfl)
    (List.append_nil inbox.toList).symm
  have tail := Stage.tailOver?_feed cpu inbox inbox.close rest
  rw [List.append_nil] at fed
  refine ⟨fed, account, last, fun _ => rfl, ?_, stopped, nofun, nofun, ?_⟩
  · intro o' left
    rw [tail]
    exact ending o' left
  · rw [tail]
    exact starved

/-- The relay looks for a value. It finds the outlet closed only after the last stage is over. -/
theorem Sound.poll {s : Stage} {rest : List Stage} {outlet : Wire} {relay : Relay Passing}
    (sound : Sound p debug phase signal phases sent relayed ⟨s :: rest, outlet, relay⟩)
    (polling : relay.phase = .polling) :
    Sound p debug phase signal phases sent relayed
      (Ring.actRelay ⟨s :: rest, outlet, relay⟩).1 := by
  obtain ⟨id, device, stopped, interval, at', joined⟩ := relay
  cases polling
  simp only [Ring.actRelay, Relay.act]
  cases contents : outlet.toList with
  | nil =>
    rw [Wire.poll_of_nil contents]
    cases closed : outlet.closed with
    | false => exact sound.turn rfl rfl nofun nofun nofun nofun
    | true =>
      refine sound.turn rfl rfl nofun ?_ nofun nofun
      rintro o ⟨⟩
      refine ⟨rfl, Or.inr ⟨fun running => ?_, contents⟩⟩
      rw [sound.row.outlet_open running] at closed
      cases closed
  | cons v queued =>
    obtain ⟨outlet', polled, rfl, same⟩ := Wire.poll_of_cons contents
    rw [polled]
    exact sound.take rfl rfl rfl contents same nofun nofun

/-- The relay takes one of the values that were queued when it noticed the stop. -/
theorem Sound.flush {s : Stage} {rest : List Stage} {outlet : Wire} {relay : Relay Passing}
    {left : Nat}
    (sound : Sound p debug phase signal phases sent relayed ⟨s :: rest, outlet, relay⟩)
    (flushing : relay.phase = .flushing left) :
    Sound p debug phase signal phases sent relayed
      (Ring.actRelay ⟨s :: rest, outlet, relay⟩).1 := by
  obtain ⟨id, device, stopped, interval, at', joined⟩ := relay
  cases flushing
  have head := sound.stopping rfl
  have enough : left ≤ outlet.toList.length := sound.backlog left rfl
  cases left with
  | zero =>
    refine sound.turn rfl rfl nofun ?_ nofun nofun
    rintro o ⟨⟩
    exact ⟨rfl, Or.inl head⟩
  | succ left =>
    simp only [Ring.actRelay, Relay.act]
    cases contents : outlet.toList with
    | nil =>
      rw [contents, List.length_nil] at enough
      omega
    | cons v queued =>
      obtain ⟨outlet', polled, rfl, same⟩ := Wire.poll_of_cons contents
      rw [polled]
      refine sound.take rfl rfl rfl contents same (fun _ => head) ?_
      rintro n ⟨⟩
      rw [contents, List.length_cons] at enough
      omega

/-- The relay puts its reply, which the first stage always accepts: only the relay closes its inbox,
and not while it has a reply. -/
theorem Sound.reply {s : Stage} {rest : List Stage} {outlet : Wire} {relay : Relay Passing}
    {v : Word} {left : Option Nat}
    (sound : Sound p debug phase signal phases sent relayed ⟨s :: rest, outlet, relay⟩)
    (answering : relay.phase = .answering v left) :
    Sound p debug phase signal phases sent (relayed ++ [v])
      (Ring.actRelay ⟨s :: rest, outlet, relay⟩).1 := by
  obtain ⟨cpu, inbox⟩ := s
  obtain ⟨id, device, stopped, interval, at', joined⟩ := relay
  cases answering
  have accepts : inbox.closed = false := by
    rw [Bool.eq_false_iff]
    intro closed
    cases sound.sealing ((Stage.headClosed_cons _ rest).trans closed)
  obtain ⟨inbox', given, appended, still⟩ := Wire.put_of_open accepts v
  simp only [Ring.actRelay, Relay.act, given]
  exact sound.put rfl appended still

/-- An act of the relay. -/
theorem Sound.actRelay {r : Ring} (sound : Sound p debug phase signal phases sent relayed r) :
    ∃ relayed', Sound p debug phase signal phases sent relayed' r.actRelay.1 := by
  obtain ⟨stages, outlet, ⟨id, device, stopped, interval, at', joined⟩⟩ := r
  cases stages with
  | nil => cases sound.row
  | cons s rest =>
    cases at' with
    | ready => exact ⟨relayed, sound⟩
    | ended o => exact ⟨relayed, sound⟩
    | leaving o => exact ⟨relayed, sound.turn rfl rfl (fun _ => rfl) sound.ending nofun nofun⟩
    | closing o => exact ⟨relayed, sound.leave rfl⟩
    | checking =>
      cases stopped with
      | true => exact ⟨relayed, sound.turn rfl rfl nofun nofun (fun _ => sound.stopped rfl) nofun⟩
      | false => exact ⟨relayed, sound.turn rfl rfl nofun nofun nofun nofun⟩
    | polling => exact ⟨relayed, sound.poll rfl⟩
    | tallying =>
      refine ⟨relayed, sound.turn rfl rfl nofun nofun (fun _ => sound.stopping rfl) ?_⟩
      rintro left ⟨⟩
      exact Nat.le_of_eq (Wire.pending_eq outlet)
    | flushing left => exact ⟨relayed, sound.flush rfl⟩
    | holding v left => exact ⟨relayed, sound.tell rfl⟩
    | answering v left => exact ⟨relayed ++ [v], sound.reply rfl⟩

theorem Sound.relayed_prefix {r : Ring} (sound : Sound p debug phase signal phases sent relayed r) :
    relayed <+: sent := by
  rw [← sound.account, List.append_assoc]
  exact List.prefix_append _ _

end Ring

end Intcode
