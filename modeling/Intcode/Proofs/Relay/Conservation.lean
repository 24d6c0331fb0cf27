import Intcode.Proofs.Device.Mirror
import Intcode.Proofs.Relay.Course

/-!
# What a relay conserves

The values that were put on the input of a relay were told to its device, are in the hand of the
relay or are still queued, in this order, and what the device has said to them was put on the
output. `Sound` keeps account of that in a course of events in any order, together with what a
noticed stop has left to be done.
-/

namespace Intcode

def Answer.words : Answer → List Word
  | .reply w => [w]
  | .silent | .crash => []

namespace Device

variable {τ : Type} [Device τ]

def replies (d : τ) : List Word → List Word
  | [] => []
  | v :: told => (Device.respond d v).answer.words ++ replies (Device.respond d v).device told

theorem replies_concat (d : τ) (told : List Word) (v : Word) :
    replies d (told ++ [v]) =
      replies d told ++ (Device.respond (Device.after d told) v).answer.words := by
  induction told generalizing d with
  | nil => exact List.append_nil _
  | cons u told ih => simp only [List.cons_append, replies, ih, List.append_assoc, Device.after,
      List.foldl_cons]

theorem after_concat (d : τ) (told : List Word) (v : Word) :
    Device.after d (told ++ [v]) = (Device.respond (Device.after d told) v).device := by
  rw [Device.after, List.foldl_append]
  rfl

end Device

namespace Relay

/-- How many values the relay will still tell to its device because it has noticed a stop, when
`queued` values are on its input. -/
def Phase.coming (queued : Nat) : Phase → Nat
  | .tallying => queued
  | .flushing left => left
  | .holding _ left => 1 + left.getD 0
  | .answering _ left => left.getD 0
  | .ready | .checking | .polling | .closing _ | .leaving _ | .ended _ => 0

/-- The relay has nothing left to tell to its device before it takes another value. -/
structure Phase.GoesOn (left : Option Nat) (reply : List Word) (phase : Phase) : Prop where
  untold : phase.untold = []
  reply : phase.reply = reply
  running : phase.over? = none
  counted : phase.left? = left
  stopping : phase.isStopping = left.isSome
  coming : ∀ queued, phase.coming queued = left.getD 0

theorem Phase.goesOn_resume (left : Option Nat) : (resume left).GoesOn left [] := by
  cases left <;> exact ⟨rfl, rfl, rfl, rfl, rfl, fun _ => rfl⟩

theorem Phase.goesOn_telling (id : String) (left : Option Nat) {answer : Answer}
    (standing : answer ≠ .crash) : (phaseAfterTelling id left answer).GoesOn left answer.words := by
  cases answer with
  | reply w => exact ⟨rfl, rfl, rfl, rfl, rfl, fun _ => rfl⟩
  | silent => exact goesOn_resume left
  | crash => exact absurd rfl standing

namespace Course

variable {τ ω : Type} [Device τ]

structure Sound (id : String) (device : τ) (c : Course τ Wire ω) : Prop where
  named : c.relay.id = id
  account : c.told ++ c.relay.phase.untold ++ c.input.toList = c.fed
  informed : c.relay.device = Device.after device c.told
  replies : c.sent ++ c.lost ++ c.relay.phase.reply = Device.replies device c.told
  refused : ∀ w s, c.refused = some (w, s) →
    s ≠ .blocked ∧ c.relay.phase.over? = Outcome.ofStop? id s
  orderly : c.refused = none → ∀ o, c.relay.phase.over? = some o → o = .ok ()
  backlog : ∀ left, c.relay.phase.left? = some left → left ≤ c.input.toList.length
  raised : c.noticed ≠ none → c.relay.stopped = true
  stopping : c.noticed = none → c.relay.phase.isStopping = false
  starved : c.noticed = none → c.relay.phase.over? = some (.ok ()) →
    c.input.toList = [] ∧ c.input.closed = true
  /-- What is still coming makes up for what was fed before the notice and has not been told. -/
  flushed : ∀ seen, c.noticed = some seen → seen <+: c.fed ∧
    (c.refused = none → seen.length ≤ c.told.length + c.relay.phase.coming c.input.toList.length)

theorem sound_load (id : String) (device : τ) (output : ω) :
    Sound id device (load id device {} output) :=
  ⟨rfl, rfl, rfl, rfl, nofun, nofun, nofun, fun noticed => absurd rfl noticed, fun _ => rfl, nofun,
    nofun⟩

variable {id : String} {device : τ} {c : Course τ Wire ω}

theorem Sound.unrefused (sound : Sound id device c) (running : c.relay.phase.over? = none) :
    c.refused = none := by
  cases refused : c.refused with
  | none => rfl
  | some p =>
    obtain ⟨w, s⟩ := p
    obtain ⟨moving, finished⟩ := sound.refused w s refused
    rw [running] at finished
    cases s with
    | blocked => exact absurd rfl moving
    | fault f | crashed => cases finished

/-- The relay goes on to another phase, with the same in its hand. -/
theorem Sound.enter (sound : Sound id device c) {now phase : Phase} (here : c.relay.phase = now)
    (untold : phase.untold = now.untold) (reply : phase.reply = now.reply)
    (finished : now.over? = phase.over? ∨ now.over? = none ∧ phase.over? = some (.ok ()))
    (backlog : ∀ left, phase.left? = some left → left ≤ c.input.toList.length)
    (stopping : c.noticed = none → phase.isStopping = false)
    (starved : c.noticed = none → phase.over? = some (.ok ()) →
      c.input.toList = [] ∧ c.input.closed = true)
    (coming : now.coming c.input.toList.length ≤ phase.coming c.input.toList.length) :
    Sound id device (c.enter phase) := by
  subst here
  refine ⟨sound.named, ?_, sound.informed, ?_, ?_, ?_, backlog, sound.raised, stopping, starved, ?_⟩
  · exact (congrArg (c.told ++ · ++ c.input.toList) untold).trans sound.account
  · exact (congrArg (c.sent ++ c.lost ++ ·) reply).trans sound.replies
  · intro w s refused
    rcases finished with same | ⟨running, -⟩
    · exact same ▸ sound.refused w s refused
    · have unrefused : c.refused = none := sound.unrefused running
      cases unrefused.symm.trans refused
  · intro unrefused o ended
    rcases finished with same | ⟨-, fine⟩
    · exact sound.orderly unrefused o (same.trans ended)
    · exact (Option.some.inj (fine.symm.trans ended)).symm
  · intro seen noticed
    obtain ⟨fed, enough⟩ := sound.flushed seen noticed
    exact ⟨fed, fun unrefused => Nat.le_trans (enough unrefused) (Nat.add_le_add_left coming _)⟩

/-- The relay takes a value from its input. -/
theorem Sound.take (sound : Sound id device c) {now : Phase} (here : c.relay.phase = now)
    (running : now.over? = none) (untold : now.untold = []) (reply : now.reply = []) {v : Word}
    {input : Wire} (next : c.input.toList = v :: input.toList) {left : Option Nat}
    (backlog : ∀ n, left = some n → n ≤ input.toList.length)
    (stopping : c.noticed = none → left = none)
    (coming : now.coming c.input.toList.length ≤ 1 + left.getD 0) :
    Sound id device { c.enter (.holding v left) with input } := by
  subst here
  have unrefused := sound.unrefused running
  refine ⟨sound.named, ?_, sound.informed, ?_, ?_, fun _ => nofun, backlog, sound.raised, ?_,
    fun _ => nofun, ?_⟩
  · have account := sound.account
    rw [untold, next, List.append_nil] at account
    exact (List.append_cons c.told v input.toList).symm.trans account
  · have replies := sound.replies
    rw [reply] at replies
    exact replies
  · intro w s refused
    cases unrefused.symm.trans refused
  · intro unnoticed
    exact congrArg Option.isSome (stopping unnoticed)
  · intro seen noticed
    obtain ⟨fed, enough⟩ := sound.flushed seen noticed
    exact ⟨fed, fun unrefused => Nat.le_trans (enough unrefused) (Nat.add_le_add_left coming _)⟩

/-- A value in the hand of the relay is told, or a reply is put: the input stays as it is. -/
theorem Sound.goOn (sound : Sound id device c) {c' : Course τ Wire ω} {left : Option Nat}
    {reply : List Word} (running : c.relay.phase.over? = none)
    (counted : c.relay.phase.left? = left) (stopping : c.relay.phase.isStopping = left.isSome)
    (on : c'.relay.phase.GoesOn left reply)
    (kept : c'.relay.id = c.relay.id ∧ c'.relay.stopped = c.relay.stopped ∧ c'.input = c.input ∧
      c'.fed = c.fed ∧ c'.refused = c.refused ∧ c'.noticed = c.noticed)
    (told : c.told ++ c.relay.phase.untold = c'.told)
    (informed : c'.relay.device = Device.after device c'.told)
    (replies : c'.sent ++ reply = Device.replies device c'.told)
    (coming : c.told.length + c.relay.phase.coming c.input.toList.length =
      c'.told.length + left.getD 0) : Sound id device c' := by
  obtain ⟨id', stopped, input, fed, refused, noticed⟩ := kept
  have unrefused := refused.trans (sound.unrefused running)
  refine ⟨id'.trans sound.named, ?_, informed, ?_, ?_, ?_, ?_, ?_, ?_, ?_, ?_⟩
  · rw [on.untold, List.append_nil, ← told, input, fed]
    exact sound.account
  · rw [on.reply, lost, unrefused, List.append_nil]
    exact replies
  · rw [unrefused]
    nofun
  · rw [on.running]
    nofun
  · rw [on.counted, ← counted, input]
    exact sound.backlog
  · rw [noticed, stopped]
    exact sound.raised
  · rw [noticed, on.stopping, ← stopping]
    exact sound.stopping
  · rw [on.running]
    nofun
  · rw [noticed, fed, refused, on.coming, ← coming]
    exact sound.flushed

section Acts

variable [Channel ω]

/-- The relay looks at the stop signal. What it notices is what was fed so far. -/
theorem Sound.check (sound : Sound id device c) (checking : c.relay.phase = .checking) :
    Sound id device c.act := by
  rw [act_of_checking checking]
  cases stopped : c.relay.stopped with
  | false =>
    exact sound.enter checking rfl rfl (.inl rfl) nofun (fun _ => rfl) nofun (Nat.zero_le _)
  | true =>
    have idle : Sound id device (c.enter .checking) :=
      sound.enter checking rfl rfl (.inl rfl) nofun (fun _ => rfl) nofun (Nat.le_refl _)
    refine ⟨idle.named, idle.account, idle.informed, idle.replies, idle.refused, idle.orderly,
      nofun, fun _ => stopped, nofun, nofun, ?_⟩
    rintro seen ⟨⟩
    refine ⟨List.prefix_rfl, fun _ => ?_⟩
    have whole := congrArg List.length idle.account
    simp only [Phase.untold, Course.enter, List.append_nil, List.length_append] at whole
    exact Nat.le_of_eq whole.symm

/-- The relay waits for a value. An end of its input ends it too. -/
theorem Sound.poll (sound : Sound id device c) (polling : c.relay.phase = .polling) :
    Sound id device c.act := by
  rw [act_of_polling polling]
  cases contents : c.input.toList with
  | nil =>
    rw [Wire.poll_of_nil contents]
    cases closed : c.input.closed with
    | false =>
      exact sound.enter polling rfl rfl (.inl rfl) nofun (fun _ => rfl) nofun (Nat.zero_le _)
    | true =>
      exact sound.enter polling rfl rfl (.inr ⟨rfl, rfl⟩) nofun (fun _ => rfl)
        (fun _ _ => ⟨contents, closed⟩) (Nat.zero_le _)
  | cons v queued =>
    obtain ⟨input, polled, rfl, -⟩ := Wire.poll_of_cons contents
    rw [polled]
    exact sound.take polling rfl rfl rfl contents nofun (fun _ => rfl) (Nat.zero_le _)

/-- The relay takes one of the values that were queued when it had noticed the stop. -/
theorem Sound.flush (sound : Sound id device c) {left : Nat}
    (flushing : c.relay.phase = .flushing left) : Sound id device c.act := by
  have noticed : c.noticed ≠ none := by
    intro unnoticed
    have stopping := sound.stopping unnoticed
    rw [flushing] at stopping
    cases stopping
  have enough : left ≤ c.input.toList.length := sound.backlog left (by rw [flushing]; rfl)
  cases left with
  | zero =>
    rw [act_of_flushed flushing]
    exact sound.enter flushing rfl rfl (.inr ⟨rfl, rfl⟩) nofun (fun _ => rfl)
      (fun unnoticed => absurd unnoticed noticed) (Nat.zero_le _)
  | succ left =>
    rw [act_of_flushing flushing]
    cases contents : c.input.toList with
    | nil =>
      rw [contents, List.length_nil] at enough
      omega
    | cons v queued =>
      obtain ⟨input, polled, rfl, -⟩ := Wire.poll_of_cons contents
      rw [contents, List.length_cons] at enough
      rw [polled]
      refine sound.take flushing rfl rfl rfl contents ?_
        (fun unnoticed => absurd unnoticed noticed) ?_
      · rintro n ⟨⟩
        omega
      · exact Nat.le_of_eq (Nat.add_comm left 1)

/-- The relay tells the value in its hand to its device. -/
theorem Sound.tell (sound : Sound id device c) (steady : Device.Steady device) {v : Word}
    {left : Option Nat} (holding : c.relay.phase = .holding v left) : Sound id device c.act := by
  have standing := steady c.told v
  have said := Device.replies_concat device c.told v
  have after := Device.after_concat device c.told v
  rw [← sound.informed] at standing said after
  have replies := sound.replies
  rw [lost, sound.unrefused (by rw [holding]; rfl), holding] at replies
  simp only [Phase.reply, List.append_nil] at replies
  rw [act_of_holding holding]
  refine sound.goOn ?_ ?_ ?_ (Phase.goesOn_telling c.relay.id left standing)
    ⟨rfl, rfl, rfl, rfl, rfl, rfl⟩ ?_ after.symm ?_ ?_
  · rw [holding]; rfl
  · rw [holding]; rfl
  · rw [holding]; rfl
  · rw [holding]; rfl
  · rw [said, ← replies]
  · rw [holding, List.length_append]
    exact (Nat.add_assoc _ _ _).symm

/-- The relay puts a reply. If the output does not accept it, that is the end of the relay. -/
theorem Sound.put (sound : Sound id device c)
    (prompt : ∀ (output : ω) w, (Channel.put output w).1 ≠ .error .blocked) {w : Word}
    {left : Option Nat} (answering : c.relay.phase = .answering w left) :
    Sound id device c.act := by
  have replies := sound.replies
  rw [lost, sound.unrefused (by rw [answering]; rfl), answering] at replies
  simp only [Phase.reply, List.append_nil] at replies
  cases put : Channel.put c.output w with
  | mk accepted output =>
    cases accepted with
    | ok u =>
      rw [act_of_accepted answering put]
      refine sound.goOn ?_ ?_ ?_ (Phase.goesOn_resume left)
        ⟨rfl, rfl, rfl, rfl, rfl, rfl⟩ ?_ sound.informed ?_ ?_
      · rw [answering]; rfl
      · rw [answering]; rfl
      · rw [answering]; rfl
      · rw [answering]; exact List.append_nil _
      · exact (List.append_nil _).trans replies
      · rw [answering]; rfl
    | error s =>
      have account := sound.account
      rw [answering] at account
      rw [act_of_refused answering put, sound.named]
      cases s with
      | blocked => exact absurd (congrArg Prod.fst put) (prompt c.output w)
      | fault f | crashed =>
        refine ⟨sound.named, account, sound.informed, ?_, ?_, nofun, nofun, sound.raised,
          fun _ => rfl, fun _ => nofun, ?_⟩
        · exact (List.append_nil _).trans replies
        · rintro w s ⟨⟩
          exact ⟨nofun, rfl⟩
        · intro seen noticed
          exact ⟨(sound.flushed seen noticed).1, nofun⟩

/-- The relay closes its output and is let go. -/
theorem Sound.leave (sound : Sound id device c) {o : Outcome}
    (ending : c.relay.phase = .closing o ∨ c.relay.phase = .leaving o) :
    Sound id device c.act := by
  have starved : c.noticed = none → some o = some (.ok ()) →
      c.input.toList = [] ∧ c.input.closed = true := by
    have starved := sound.starved
    rcases ending with here | here <;> rw [here] at starved <;> exact starved
  rcases ending with closing | leaving
  · rw [act_of_closing closing]
    have left : Sound id device (c.enter (.leaving o)) :=
      sound.enter closing rfl rfl (.inl rfl) nofun (fun _ => rfl) starved (Nat.le_refl _)
    exact { left with }
  · rw [act_of_leaving leaving]
    exact sound.enter leaving rfl rfl (.inl rfl) nofun (fun _ => rfl) starved (Nat.le_refl _)

/-- An act of the relay. -/
theorem Sound.act (sound : Sound id device c) (steady : Device.Steady device)
    (prompt : ∀ (output : ω) w, (Channel.put output w).1 ≠ .error .blocked) :
    Sound id device c.act := by
  cases here : c.relay.phase with
  | ready => rwa [act_of_ready here]
  | checking => exact sound.check here
  | polling => exact sound.poll here
  | tallying =>
    rw [act_of_tallying here, Wire.pending_eq]
    refine sound.enter here rfl rfl (.inl rfl) ?_ ?_ nofun (Nat.le_refl _)
    · rintro left ⟨⟩
      exact Nat.le_refl _
    · intro unnoticed
      have stopping := sound.stopping unnoticed
      rw [here] at stopping
      cases stopping
  | flushing left => exact sound.flush here
  | holding v left => exact sound.tell steady here
  | answering w left => exact sound.put prompt here
  | closing o => exact sound.leave (.inl here)
  | leaving o => exact sound.leave (.inr here)
  | ended o => rwa [act_of_ended here]

/-- Others put values on the input or close it. -/
theorem Sound.feed (sound : Sound id device c) {use : Use} (feeds : use ≠ .take ∧ use ≠ .poll) :
    Sound id device (c.next (.input use)) := by
  obtain ⟨appended, refuses⟩ := Wire.use_feeds c.input feeds
  refine ⟨sound.named, ?_, sound.informed, sound.replies, sound.refused, sound.orderly, ?_,
    sound.raised, sound.stopping, ?_, ?_⟩
  · show c.told ++ c.relay.phase.untold ++ (use.on c.input).toList = c.fed ++ use.accepted c.input
    rw [appended, ← List.append_assoc, sound.account]
  · intro left noted
    have enough := sound.backlog left noted
    show left ≤ (use.on c.input).toList.length
    rw [appended, List.length_append]
    omega
  · intro unnoticed finished
    obtain ⟨empty, closed⟩ := sound.starved unnoticed finished
    obtain ⟨still, nothing⟩ := refuses closed
    refine ⟨?_, still⟩
    show (use.on c.input).toList = []
    rw [appended, empty, nothing]
    rfl
  · intro seen noticed
    obtain ⟨fed, enough⟩ := sound.flushed seen noticed
    refine ⟨fed.trans (List.prefix_append _ _), fun unrefused => ?_⟩
    refine Nat.le_trans (enough unrefused) (Nat.add_le_add_left ?_ _)
    show _ ≤ c.relay.phase.coming (use.on c.input).toList.length
    rw [appended, List.length_append]
    cases c.relay.phase with
    | tallying => exact Nat.le_add_right _ _
    | _ => exact Nat.le_refl _

/-- Any turn. -/
theorem Sound.next (sound : Sound id device c) (steady : Device.Steady device)
    (prompt : ∀ (output : ω) w, (Channel.put output w).1 ≠ .error .blocked) {turn : Turn}
    (feeds : turn.feeds = true) : Sound id device (c.next turn) := by
  cases turn with
  | start =>
    obtain ⟨⟨id', device', stopped, interval, phase, joined⟩, input, output⟩ := c
    cases phase with
    | ready =>
      have ready : Phase.ready = .ready := rfl
      exact sound.enter ready rfl rfl (.inl rfl) nofun (fun _ => rfl) nofun (Nat.le_refl _)
    | _ => exact sound
  | stop => exact { sound with raised := fun _ => rfl }
  | join =>
    obtain ⟨⟨id', device', stopped, interval, phase, joined⟩, input, output⟩ := c
    cases joined with
    | some o => exact sound
    | none => cases phase <;> exact { sound with }
  | act => exact sound.act steady prompt
  | input use => exact sound.feed (Turn.feeds_input feeds)
  | output use => exact { sound with }

/-- A whole course. -/
theorem Sound.run (sound : Sound id device c) (steady : Device.Steady device)
    (prompt : ∀ (output : ω) w, (Channel.put output w).1 ≠ .error .blocked) {turns : List Turn}
    (feeds : ∀ t ∈ turns, t.feeds = true) : Sound id device (c.run turns) := by
  induction turns generalizing c with
  | nil => exact sound
  | cons t turns ih =>
    obtain ⟨first, others⟩ := List.forall_mem_cons.mp feeds
    exact ih (sound.next steady prompt first) others

end Acts

section Stores

variable {ι : Type} [Channel ι] [Channel ω] {contents : ω → List Word}

/-- An act puts what it records as sent, and nothing else, behind what the output holds. -/
theorem sent_act (stores : Channel.Stores contents) (c : Course τ ι ω) :
    ∃ more, c.act.sent = c.sent ++ more ∧ contents c.act.output = contents c.output ++ more := by
  have nothing {ws : List Word} : ws = ws ++ [] := (List.append_nil ws).symm
  cases here : c.relay.phase with
  | ready =>
    rw [act_of_ready here]
    exact ⟨[], nothing, nothing⟩
  | checking =>
    rw [act_of_checking here]
    split <;> exact ⟨[], nothing, nothing⟩
  | polling =>
    rw [act_of_polling here]
    exact ⟨[], nothing, nothing⟩
  | tallying =>
    rw [act_of_tallying here]
    exact ⟨[], nothing, nothing⟩
  | flushing left =>
    cases left with
    | zero =>
      rw [act_of_flushed here]
      exact ⟨[], nothing, nothing⟩
    | succ left =>
      rw [act_of_flushing here]
      exact ⟨[], nothing, nothing⟩
  | holding v left =>
    rw [act_of_holding here]
    refine ⟨[], nothing, ?_⟩
    show contents (if _ then Channel.close c.output else c.output) = _
    split
    · exact (stores.close c.output).trans nothing
    · exact nothing
  | answering w left =>
    cases put : Channel.put c.output w with
    | mk accepted output =>
      cases accepted with
      | ok u =>
        rw [act_of_accepted here put]
        exact ⟨[w], rfl, stores.accepted put⟩
      | error s =>
        rw [act_of_refused here put]
        exact ⟨[], nothing, (stores.refused put).trans nothing⟩
  | closing o =>
    rw [act_of_closing here]
    exact ⟨[], nothing, (stores.close c.output).trans nothing⟩
  | leaving o =>
    rw [act_of_leaving here]
    exact ⟨[], nothing, nothing⟩
  | ended o =>
    rw [act_of_ended here]
    exact ⟨[], nothing, nothing⟩

/-- What was recorded as sent is what has come onto an output that nobody else uses. -/
theorem sent_run (stores : Channel.Stores contents) (c : Course τ ι ω) {turns : List Turn}
    (alone : ∀ use, .output use ∉ turns) :
    ∃ more, (c.run turns).sent = c.sent ++ more ∧
      contents (c.run turns).output = contents c.output ++ more := by
  induction turns generalizing c with
  | nil => exact ⟨[], (List.append_nil _).symm, (List.append_nil _).symm⟩
  | cons t turns ih =>
    have step : ∃ more, (c.next t).sent = c.sent ++ more ∧
        contents (c.next t).output = contents c.output ++ more := by
      cases t with
      | act => exact c.sent_act stores
      | output use => exact absurd (List.mem_cons_self ..) (alone use)
      | start | stop | join | input use =>
        exact ⟨[], (List.append_nil _).symm, (List.append_nil _).symm⟩
    obtain ⟨first, sent, put⟩ := step
    obtain ⟨more, sent', put'⟩ := ih (c.next t) fun use mem => alone use (.tail t mem)
    refine ⟨first ++ more, ?_, ?_⟩
    · rw [← List.append_assoc, ← sent]
      exact sent'
    · rw [← List.append_assoc, ← put]
      exact put'

end Stores

end Course

end Relay

end Intcode
