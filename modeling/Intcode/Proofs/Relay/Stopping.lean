import Intcode.Proofs.Relay.Closing
import Intcode.Proofs.Relay.Conservation
import Intcode.Proofs.Relay.Ending

/-!
# Stopping a relay

Whatever the order of the puts, the stop, the closing of the input and the acts of the relay, a
relay loses, doubles and reorders nothing. What was queued when it noticed a stop has gone through
its device when it ends. What is put later stays on the input.
-/

namespace Intcode

namespace Relay

namespace Course

variable {τ ω : Type} [Device τ]

section Notice

variable {ι : Type} [Channel ι] [Channel ω] {c : Course τ ι ω}

theorem unstopped_run (unstopped : c.relay.stopped = false) {turns : List Turn}
    (quiet : .stop ∉ turns) : (c.run turns).relay.stopped = false := by
  induction turns generalizing c with
  | nil => exact unstopped
  | cons t turns ih =>
    obtain ⟨other, later⟩ := not_or.mp (mt List.mem_cons.mpr quiet)
    refine ih ?_ later
    cases t with
    | start =>
      obtain ⟨⟨id, device, stopped, interval, phase, joined⟩, input, output⟩ := c
      cases phase <;> exact unstopped
    | stop => exact absurd rfl other
    | join => exact (phase_join c.relay).2.trans unstopped
    | act => exact c.act_keeps.stopped.trans unstopped
    | input use | output use => exact unstopped

/-- What has been fed stays fed. -/
theorem fed_next (c : Course τ ι ω) (turn : Turn) : c.fed <+: (c.next turn).fed := by
  cases turn with
  | act => exact c.act_keeps.fed ▸ List.prefix_rfl
  | input use => exact List.prefix_append _ _
  | start | stop | join | output use => exact List.prefix_rfl

theorem noticed_next (c : Course τ ι ω) (turn : Turn) :
    (c.next turn).noticed = c.noticed ∨ (c.next turn).noticed = some c.fed := by
  cases turn with
  | act => exact c.act_keeps.noticed
  | start | stop | join | input use | output use => exact .inl rfl

/-- A relay that notices a stop later notices with it all that has been fed before. -/
theorem fed_of_noticed {before : List Word} (fed : before <+: c.fed)
    (earlier : ∀ seen, c.noticed = some seen → before <+: seen) (turns : List Turn)
    {seen : List Word} (noticed : (c.run turns).noticed = some seen) : before <+: seen := by
  induction turns generalizing c with
  | nil => exact earlier seen noticed
  | cons t turns ih =>
    refine ih (fed.trans (fed_next c t)) ?_ noticed
    intro seen now
    rcases noticed_next c t with same | notices
    · exact earlier seen (same.symm.trans now)
    · obtain rfl := Option.some.inj (notices.symm.trans now)
      exact fed

end Notice

/-- What holds of a relay that sits between a wire and an output, at any moment. -/
structure Faithful (id : String) (device : τ) (shut : ω → Prop) (c : Course τ Wire ω) : Prop where
  /-- What was fed was told, is in the hand of the relay or is queued, in this order. -/
  account : c.told ++ c.relay.phase.untold ++ c.input.toList = c.fed
  /-- The output has accepted the replies in order, but for one that is still to be put and one that
  it has refused. -/
  replies : c.sent ++ c.lost ++ c.relay.phase.reply = Device.replies device c.told
  /-- Nothing is in the hand of a relay whose loop is over. -/
  settled : c.relay.phase.over? ≠ none →
    c.told ++ c.input.toList = c.fed ∧ c.sent ++ c.lost = Device.replies device c.told
  /-- A reply that the output has refused has ended the loop, with this outcome. -/
  refused : ∀ w s, c.refused = some (w, s) →
    s ≠ .blocked ∧ c.relay.phase.over? = Outcome.ofStop? id s
  /-- Nothing else makes the loop fail. -/
  orderly : c.refused = none → ∀ o, c.relay.phase.over? = some o → o = .ok ()
  /-- What had been fed when the stop was noticed has been told when the loop ends well. -/
  flushed : ∀ seen, c.noticed = some seen → c.relay.phase.over? = some (.ok ()) → seen <+: c.told
  closed : c.relay.phase.isGone = true →
    c.relay.phase.over? ≠ some (.error (.relayCrashed id)) → shut c.output

variable {id : String} {device : τ} {c : Course τ Wire ω}

theorem Sound.settled (sound : Sound id device c) {o : Outcome}
    (finished : c.relay.phase.over? = some o) :
    c.told ++ c.input.toList = c.fed ∧ c.sent ++ c.lost = Device.replies device c.told := by
  have account := sound.account
  have replies := sound.replies
  have nothing : c.relay.phase.reply = [] := by
    cases here : c.relay.phase with
    | answering w left =>
      rw [here] at finished
      cases finished
    | _ => rfl
  rw [Phase.untold_of_over finished, List.append_nil] at account
  rw [nothing, List.append_nil] at replies
  exact ⟨account, replies⟩

theorem Sound.seen_told (sound : Sound id device c) {seen : List Word}
    (noticed : c.noticed = some seen) (finished : c.relay.phase.over? = some (.ok ())) :
    seen <+: c.told := by
  obtain ⟨fed, enough⟩ := sound.flushed seen noticed
  have unrefused : c.refused = none := by
    cases refused : c.refused with
    | none => rfl
    | some p =>
      obtain ⟨w, s⟩ := p
      have outcome := (sound.refused w s refused).2
      rw [finished] at outcome
      cases s <;> cases outcome
  have told : c.told <+: c.fed := ⟨_, (sound.settled finished).1⟩
  have none : c.relay.phase.coming c.input.toList.length = 0 := by
    cases here : c.relay.phase with
    | closing o | leaving o | ended o => rfl
    | _ =>
      rw [here] at finished
      cases finished
  have length := enough unrefused
  rw [none] at length
  exact List.prefix_of_prefix_length_le fed told length

/-- If the loop ends well and no stop was noticed before all that was fed was there, then all of it
was told. -/
theorem Sound.told_all (sound : Sound id device c) (finished : c.relay.phase.over? = some (.ok ()))
    (whole : ∀ seen, c.noticed = some seen → c.fed <+: seen) : c.told = c.fed := by
  have account := (sound.settled finished).1
  cases noticed : c.noticed with
  | none =>
    rw [(sound.starved noticed finished).1, List.append_nil] at account
    exact account
  | some seen =>
    have told : c.told <+: c.fed := ⟨_, account⟩
    have all := (whole seen noticed).trans (sound.seen_told noticed finished)
    exact told.eq_of_length_le all.length_le

/-- A relay between a wire and any output, with a device that never breaks down, is faithful at any
moment. What the output holds besides its first contents are the accepted replies, if it stores what
it accepts and nobody else uses it. All that was fed has been told when its loop has ended without a
refused reply, if all of it was there before the stop was raised, or if the input was closed after
it and the relay had noticed no stop by then. And once it has been started and is stopped or its
input is closed, it ends. -/
theorem stopping_loses_nothing [Channel ω] {shut : ω → Prop}
    (seals : Channel.Seals shut)
    (prompt : ∀ (output : ω) w, (Channel.put output w).1 ≠ .error .blocked) (id : String)
    (device : τ) (steady : Device.Steady device) (output : ω) (turns : List Turn)
    (feeding : ∀ t ∈ turns, t.feeds = true) :
    let fresh := load id device ({} : Wire) output
    let c := fresh.run turns
    Faithful id device shut c ∧
    (∀ contents : ω → List Word, Channel.Stores contents → (∀ use, .output use ∉ turns) →
      contents c.output = contents output ++ c.sent) ∧
    (∀ before after, turns = before ++ after → (fresh.run before).fed = c.fed →
      (.stop ∉ before ∨
        (fresh.run before).input.closed = true ∧ (fresh.run before).noticed = none) →
      c.relay.phase.over? ≠ none → c.refused = none → c.told = c.fed) ∧
    (c.relay.phase ≠ .ready → c.relay.stopped = true ∨ c.input.closed = true →
      ∃ enough, ∀ rest : List Turn, (∀ t ∈ rest, t.feeds = true) →
        enough + 4 * rest.countP Turn.isPut ≤ rest.count .act →
        ∃ o, (c.run rest).relay.outcome? = some o) := by
  intro fresh c
  have sound : Sound id device c := (sound_load id device output).run steady prompt feeding
  refine ⟨⟨sound.account, sound.replies, ?_, sound.refused, sound.orderly, ?_, ?_⟩, ?_, ?_, ?_⟩
  · intro finished
    obtain ⟨o, finished⟩ := Option.ne_none_iff_exists'.mp finished
    exact sound.settled finished
  · intro seen noticed finished
    exact sound.seen_told noticed finished
  · intro gone unbroken
    exact (run_closes seals id device ({} : Wire) output turns gone).resolve_right fun broken =>
      unbroken broken.1
  · intro contents stores alone
    obtain ⟨more, sent, held⟩ := fresh.sent_run stores alone
    have all : c.sent = more := sent
    rw [all]
    exact held
  · rintro before after rfl fed early finished unrefused
    obtain ⟨o, finished⟩ := Option.ne_none_iff_exists'.mp finished
    obtain rfl := sound.orderly unrefused o finished
    have feeding := fun t (mem : t ∈ before) => feeding t (List.mem_append_left after mem)
    have sound' : Sound id device (fresh.run before) :=
      (sound_load id device output).run steady prompt feeding
    have unnoticed : (fresh.run before).noticed = none := by
      rcases early with quiet | ⟨-, unnoticed⟩
      · have unstopped : (fresh.run before).relay.stopped = false := unstopped_run rfl quiet
        by_cases noticed : (fresh.run before).noticed = none
        · exact noticed
        · cases unstopped.symm.trans (sound'.raised noticed)
      · exact unnoticed
    refine sound.told_all finished fun seen noticed => ?_
    rw [← fed]
    refine fed_of_noticed (c := fresh.run before) List.prefix_rfl ?_ after ?_
    · rw [unnoticed]
      nofun
    · rw [← run_append]
      exact noticed
  · intro started reason
    exact Bound.ends ⟨started, reason⟩ prompt

theorem passing_steady (d : Passing) : Device.Steady d := fun _ _ => nofun

/-- A relay on two wires that passes everything on, after some turns. -/
def passing (turns : List Turn) : Course Passing Wire Wire := (load "R" {} {} {}).run turns

def twoPuts : List Turn := [.input (.put 7), .start, .act, .act, .act, .act, .input (.put 8)]

def fromStop : List Turn := .stop :: .replicate 8 .act

/-- The second value is still queued when the stop is raised. -/
theorem stopped_midway_loses_nothing :
    Faithful "R" ({} : Passing) (fun w => w.closed = true) (passing (twoPuts ++ fromStop)) ∧
    (passing (twoPuts ++ fromStop)).output.toList = (passing (twoPuts ++ fromStop)).sent ∧
    ((passing twoPuts).fed = (passing (twoPuts ++ fromStop)).fed ∧ .stop ∉ twoPuts ∧
      (passing (twoPuts ++ fromStop)).relay.phase.over? ≠ none ∧
      (passing (twoPuts ++ fromStop)).refused = none ∧
      (passing (twoPuts ++ fromStop)).told = (passing (twoPuts ++ fromStop)).fed) ∧
    (passing (twoPuts ++ fromStop)).relay.phase ≠ .ready ∧
    (passing (twoPuts ++ fromStop)).relay.stopped = true ∧
    ∃ enough, ∀ rest : List Turn, (∀ t ∈ rest, t.feeds = true) →
      enough + 4 * rest.countP Turn.isPut ≤ rest.count .act →
      ∃ o, ((passing (twoPuts ++ fromStop)).run rest).relay.outcome? = some o := by
  have feeding : ∀ t ∈ twoPuts ++ fromStop, t.feeds = true := by decide
  have fed : (passing twoPuts).fed = (passing (twoPuts ++ fromStop)).fed := rfl
  have alone : ∀ use, .output use ∉ twoPuts ++ fromStop := by simp [twoPuts, fromStop]
  have early : .stop ∉ twoPuts := by decide
  have finished : (passing (twoPuts ++ fromStop)).relay.phase.over? ≠ none := by decide +kernel
  have started : (passing (twoPuts ++ fromStop)).relay.phase ≠ .ready := nofun
  obtain ⟨faithful, held, whole, ends⟩ := stopping_loses_nothing Wire.seals_closed
    Wire.put_prompt "R" ({} : Passing) (passing_steady {}) ({} : Wire) (twoPuts ++ fromStop) feeding
  have told := whole twoPuts fromStop rfl fed (.inl early) finished rfl
  exact ⟨faithful, held Wire.toList Wire.stores_toList alone, ⟨fed, early, finished, rfl, told⟩,
    started, rfl, ends started (.inl rfl)⟩

/-- A relay that has noticed a stop takes nothing that comes later: the value that is put here,
before the input is closed, stays where it is, although no put has failed. -/
theorem late_value_stays :
    let c := passing (.stop :: .start :: .replicate 8 .act ++ [.input (.put 1), .input .close])
    c.relay.outcome? = some (.ok ()) ∧ c.refused = none ∧ c.input.closed = true ∧ c.fed = [1] ∧
      c.told = [] ∧ c.input.toList = [1] :=
  ⟨rfl, rfl, rfl, rfl, rfl, rfl⟩

end Course

end Relay

end Intcode
