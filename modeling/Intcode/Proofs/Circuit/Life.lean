import Intcode.Circuit.Chain
import Intcode.Proofs.Machine.Wired
import Intcode.Proofs.Processor.Act

/-!
# Lives of stages

Whatever the other units of a circuit do, a stage does what its machine does alone, on a list of
inputs that is given at once and closed behind. `Life` says so of any list that begins with what the
stage has been fed so far: the stage has come as far as the machine alone comes in some number of
steps. Only a stage that found its inbox empty and closed has seen the end of its list.
-/

namespace Intcode

namespace Stage

def alone (p : Program) (debug : Bool) (index : Nat) (script : List Word) : Rig Wire Tape :=
  { machine := Machine.load p (label index) debug
    input := (Wire.ofList script).close
    output := {} }

/-- How far the machine of a stage comes alone in `n` steps. -/
def aloneFor (p : Program) (debug : Bool) (index : Nat) (script : List Word) (n : Nat) :
    Option (Except Stop HaltState) × Rig Wire Tape :=
  repeatStep (fun r => (r.step.result, r.step.rig)) Rig.machine n (alone p debug index script)

/-- A stage stands where its machine alone has come to, but for the inputs `rest` that have not
reached the stage. -/
structure Follows (id : String) (cpu : Processor Unit) (inbox : Wire) (rest emitted : List Word)
    (run : Option (Except Stop HaltState) × Rig Wire Tape) : Prop where
  outcome : run.1.map (Outcome.ofEnd? id) = cpu.over?.map some
  machine : run.2.machine = cpu.machine
  unread : run.2.input.toList = inbox.toList ++ rest
  emitted : run.2.output.toList = emitted

/-- The stage found its inbox empty and closed. -/
def Starved (cpu : Processor Unit) : Prop := cpu.over? = some (.error .notConnected)

/-- What a stage has done: it was fed `fed`, part of which may still be in its inbox, and it has
emitted `emitted`. -/
structure Life (p : Program) (debug : Bool) (index : Nat) (cpu : Processor Unit) (inbox : Wire)
    (fed emitted : List Word) : Prop where
  id : cpu.id = label index
  follows : ∃ n, ∀ script, fed <+: script → (Starved cpu → script = fed) →
    Follows (label index) cpu inbox (script.drop fed.length) emitted
      (aloneFor p debug index script n)

/-- What an act of a stage does to its wires, and when it can be that the stage starves or notifies
a listener. -/
structure Fits (cpu : Processor Unit) (inbox outbox : Wire) (a : Processor.Acted Unit Wire Wire) :
    Prop where
  persists : cpu.over? ≠ none → a.processor.over? = cpu.over?
  sealing : a.input.closed = inbox.closed
  said : a.output.toList = outbox.toList ++ a.event.words
  silent : cpu.over? ≠ none → a.event.words = []
  accepts : a.processor.over? = none → a.output.closed = false
  starves : Starved a.processor → Starved cpu ∨ inbox.closed = true
  notifies : ∀ l, a.event = .notified l → cpu.over? ≠ none

section Alone

variable {p : Program} {debug : Bool} {index n m : Nat} {script : List Word}

theorem alone_closed (p : Program) (debug : Bool) (index : Nat) (script : List Word) (n : Nat) :
    (aloneFor p debug index script n).2.input.closed = true := by
  apply repeatStep_preserves (P := fun r : Rig Wire Tape => r.input.closed = true)
  · intro r closed
    exact (Rig.closed_step r).trans closed
  · rfl

theorem aloneFor_succ (running : (aloneFor p debug index script n).1 = none) :
    aloneFor p debug index script (n + 1) =
      let s := (aloneFor p debug index script n).2.step
      (endOf s.rig.machine s.result, s.rig) :=
  repeatStep_succ (Prod.ext running rfl)

/-- A longer run has emitted more. -/
theorem aloneFor_prefix (p : Program) (debug : Bool) (index : Nat) (script : List Word)
    (le : n ≤ m) :
    (aloneFor p debug index script n).2.output.toList <+:
      (aloneFor p debug index script m).2.output.toList := by
  obtain ⟨k, rfl⟩ := Nat.exists_eq_add_of_le le
  simp only [aloneFor]
  rw [repeatStep_add]
  split
  · rename_i finished
    refine ⟨[], ?_⟩
    rw [finished, List.append_nil]
  · rename_i t running
    rw [running]
    apply repeatStep_preserves (P := fun r : Rig Wire Tape => t.output.toList <+: r.output.toList)
    · intro r grown
      exact grown.trans (Rig.said_step r)
    · exact List.prefix_refl _

/-- A run that is over stays as it is. -/
theorem aloneFor_of_le (le : n ≤ m) (finished : (aloneFor p debug index script n).1 ≠ none) :
    aloneFor p debug index script m = aloneFor p debug index script n := by
  obtain ⟨e, ended⟩ := Option.ne_none_iff_exists'.mp finished
  have run : aloneFor p debug index script n = (some e, (aloneFor p debug index script n).2) :=
    Prod.ext ended rfl
  rw [run]
  exact repeatStep_of_le le run

end Alone

/-- A step starves a stage just if it lacks its connection. -/
theorem starved_stepped (cpu : Processor Unit) (result : Except Stop Progress) (m : Machine)
    (trace : Array Record) :
    Starved (cpu.stepped result m trace) ↔ result = .error (.fault .notConnected) := by
  constructor
  · intro starved
    cases result with
    | ok progress => cases progress <;> cases starved
    | error s =>
      cases s with
      | fault f =>
        cases starved
        rfl
      | blocked => cases starved
      | crashed => cases starved
  · rintro rfl
    rfl

/-- A step of the machine alone does the same as a step of the stage. -/
theorem step_alone {m : Machine} {inbox outbox : Wire} {trace : Array Record} {rest : List Word}
    {t : Rig Wire Tape} {s : Stepped Wire Wire}
    (onWires : Rig.OnWires ⟨m, inbox, outbox, trace⟩ s) (moves : s.result ≠ .error .blocked)
    (complete : s.result = .error (.fault .notConnected) → rest = []) (machine : t.machine = m)
    (unread : t.input.toList = inbox.toList ++ rest) (closed : t.input.closed = true) :
    t.step.result = s.result ∧ t.step.rig.machine = s.rig.machine ∧
      t.step.rig.input.toList = s.rig.input.toList ++ rest ∧
      t.step.rig.output.toList = t.output.toList ++ Traffic.words s.traffic := by
  cases onWires with
  | computes h =>
    rw [Rig.step_of_nothing t (by rw [machine]; exact h), machine]
    exact ⟨rfl, rfl, unread, (List.append_nil _).symm⟩
  | takes h next same =>
    rw [next] at unread
    obtain ⟨w, taken, left, _⟩ := Wire.take_of_cons unread
    rw [Rig.step_of_word t (by rw [machine]; exact h), machine, taken]
    exact ⟨rfl, rfl, left, (List.append_nil _).symm⟩
  | puts h appended accepts =>
    rw [Rig.step_of_room t (by rw [machine]; exact h), machine]
    exact ⟨rfl, rfl, unread, Tape.toList_push t.output _⟩
  | waits h empty more => exact absurd rfl moves
  | starves h empty shut =>
    rw [empty, complete rfl] at unread
    rw [Rig.step_of_word t (by rw [machine]; exact h), Wire.take_of_nil unread, closed, empty,
      complete rfl]
    exact ⟨rfl, machine, unread, (List.append_nil _).symm⟩

section Following

variable {id : String} {cpu : Processor Unit} {inbox outbox : Wire} {rest emitted : List Word}
  {run : Option (Except Stop HaltState) × Rig Wire Tape}

theorem Follows.running (follows : Follows id cpu inbox rest emitted run)
    (fresh : cpu.over? = none) : run.1 = none := by
  have outcome := follows.outcome
  rw [fresh] at outcome
  exact Option.map_eq_none_iff.mp outcome

theorem Follows.ended (follows : Follows id cpu inbox rest emitted run)
    (finished : cpu.over? ≠ none) : run.1 ≠ none := by
  intro running
  have outcome := follows.outcome
  rw [running] at outcome
  exact finished (Option.map_eq_none_iff.mp outcome.symm)

/-- A machine that comes as far alone as a stage has come keeps up with its next step. -/
theorem Follows.step {p : Program} {debug : Bool} {index n : Nat} {script : List Word}
    (follows : Follows (label index) cpu inbox rest emitted (aloneFor p debug index script n))
    (named : cpu.id = label index) (running : cpu.phase = .running) {s : Stepped Wire Wire}
    (onWires : Rig.OnWires ⟨cpu.machine, inbox, outbox, cpu.trace⟩ s)
    (moves : s.result ≠ .error .blocked)
    (complete : s.result = .error (.fault .notConnected) → rest = []) :
    Follows (label index) (cpu.stepped s.result s.rig.machine s.rig.trace) s.rig.input rest
      (emitted ++ Traffic.words s.traffic) (aloneFor p debug index script (n + 1)) := by
  have fresh := Processor.over?_of_running running
  obtain ⟨sameResult, sameMachine, unread, said⟩ := step_alone onWires moves complete
    follows.machine follows.unread (alone_closed p debug index script n)
  rw [aloneFor_succ (follows.running fresh)]
  refine ⟨?_, sameMachine, unread, ?_⟩
  · rw [Processor.over?_stepped cpu _ _ moves, named, ← sameResult, ← sameMachine]
  · rw [← follows.emitted]
    exact said

end Following

section Living

variable {p : Program} {debug : Bool} {index : Nat} {cpu : Processor Unit} {inbox outbox : Wire}
  {fed emitted : List Word}

/-- The life of a stage before its first act. -/
theorem Life.start (contents : inbox.toList = fed) (id : cpu.id = label index)
    (machine : cpu.machine = Machine.load p (label index) debug) (fresh : cpu.over? = none) :
    Life p debug index cpu inbox fed [] := by
  refine ⟨id, 0, ?_⟩
  rintro script ⟨rest, rfl⟩ _
  refine ⟨?_, machine.symm, ?_, rfl⟩
  · rw [fresh]
    rfl
  · rw [contents, List.drop_left]
    exact Wire.toList_ofList _

/-- More arrives in the inbox of a stage that has not found it closed. -/
theorem Life.feed (life : Life p debug index cpu inbox fed emitted) {inbox' : Wire}
    {more : List Word} (unstarved : Starved cpu → more = [])
    (arrived : inbox'.toList = inbox.toList ++ more) :
    Life p debug index cpu inbox' (fed ++ more) emitted := by
  obtain ⟨id, n, follows⟩ := life
  refine ⟨id, n, ?_⟩
  rintro script ⟨rest, rfl⟩ complete
  have before := follows (fed ++ more ++ rest) ⟨more ++ rest, by rw [List.append_assoc]⟩
    (fun starved => by rw [complete starved, unstarved starved, List.append_nil])
  refine ⟨before.outcome, before.machine, ?_, before.emitted⟩
  rw [before.unread, arrived, List.drop_left, List.append_assoc fed, List.drop_left,
    List.append_assoc]

/-- An act of a stage adds to its life what it emits. -/
theorem Life.act (life : Life p debug index cpu inbox fed emitted)
    (accepts : cpu.over? = none → outbox.closed = false) :
    Life p debug index (cpu.act inbox outbox).processor (cpu.act inbox outbox).input fed
      (emitted ++ (cpu.act inbox outbox).event.words) := by
  obtain ⟨named, n, follows⟩ := life
  by_cases running : cpu.phase = .running
  · have fresh := Processor.over?_of_running running
    have unstarved {script : List Word} : Starved cpu → script = fed := by
      intro starved
      rw [Starved, fresh] at starved
      cases starved
    have onWires := Rig.step_onWires ⟨cpu.machine, inbox, outbox, cpu.trace⟩ (accepts fresh)
    rw [Processor.act_of_running running]
    by_cases waits : (Rig.step ⟨cpu.machine, inbox, outbox, cpu.trace⟩).result = .error .blocked
    · rw [onWires.waiting waits]
      refine ⟨named, n, ?_⟩
      intro script begins _
      have before := follows script begins unstarved
      refine ⟨before.outcome.trans (by rw [fresh]; rfl), before.machine, before.unread, ?_⟩
      exact before.emitted.trans (List.append_nil emitted).symm
    · refine ⟨named, n + 1, ?_⟩
      intro script begins whole
      have before := follows script begins unstarved
      rw [Processor.words_eventOf onWires.quiet]
      refine before.step named running onWires waits ?_
      intro starves
      rw [whole ((starved_stepped ..).mpr starves), List.drop_length]
  · have rests := Processor.act_rests running inbox outbox
    refine ⟨rests.id.trans named, n, ?_⟩
    intro script begins whole
    have before := follows script begins (fun starved => whole (rests.outcome.trans starved))
    rw [rests.silent, List.append_nil, rests.input]
    exact ⟨before.outcome.trans (by rw [rests.outcome]), before.machine.trans rests.machine.symm,
      before.unread, before.emitted⟩

theorem act_fits (inbox : Wire) (accepts : cpu.over? = none → outbox.closed = false) :
    Fits cpu inbox outbox (cpu.act inbox outbox) := by
  by_cases running : cpu.phase = .running
  · have fresh := Processor.over?_of_running running
    have onWires := Rig.step_onWires ⟨cpu.machine, inbox, outbox, cpu.trace⟩ (accepts fresh)
    rw [Processor.act_of_running running]
    refine ⟨fun finished => absurd fresh finished, Rig.closed_step _, ?_,
      fun finished => absurd fresh finished, fun _ => onWires.accepting (accepts fresh), ?_,
      fun l notified => absurd notified (Processor.eventOf_ne_notified _ _ l)⟩
    · rw [Processor.words_eventOf onWires.quiet]
      exact onWires.said
    · intro starved
      exact Or.inr (onWires.starving ((starved_stepped ..).mp starved))
  · have rests := Processor.act_rests running inbox outbox
    refine ⟨fun _ => rests.outcome, by rw [rests.input], ?_, fun _ => rests.silent, ?_, ?_,
      rests.notifies⟩
    · rw [rests.silent, List.append_nil]
      rcases rests.output with same | ⟨_, closed⟩
      · rw [same]
      · rw [closed]
        rfl
    · intro fresh
      rw [rests.outcome] at fresh
      rcases rests.output with same | ⟨finished, _⟩
      · rw [same]
        exact accepts fresh
      · exact absurd fresh finished
    · intro starved
      exact Or.inl (rests.outcome.symm.trans starved)

/-- Two lives whose inputs belong to one list. What one stage has emitted begins what the other has
emitted at its end, and if both are over, they are over in the same way. -/
theorem Life.agree (life : Life p debug index cpu inbox fed emitted) {cpu' : Processor Unit}
    {inbox' : Wire} {fed' emitted' script : List Word}
    (life' : Life p debug index cpu' inbox' fed' emitted') (begins : fed <+: script)
    (begins' : fed' <+: script) (whole : Starved cpu → script = fed)
    (whole' : Starved cpu' → script = fed') (finished : cpu.over? ≠ none) :
    emitted' <+: emitted ∧ (cpu'.over? ≠ none → emitted' = emitted ∧ cpu'.over? = cpu.over?) := by
  obtain ⟨n, follows⟩ := life.follows
  obtain ⟨n', follows'⟩ := life'.follows
  have run := follows script begins whole
  have run' := follows' script begins' whole'
  have late := aloneFor_of_le (Nat.le_max_left n n') (run.ended finished)
  constructor
  · rw [← run.emitted, ← run'.emitted, ← late]
    exact aloneFor_prefix p debug index script (Nat.le_max_right n n')
  · intro finished'
    have late' := aloneFor_of_le (Nat.le_max_right n n') (run'.ended finished')
    have same := late'.symm.trans late
    constructor
    · rw [← run.emitted, ← run'.emitted, same]
    · have outcomes := run'.outcome
      rw [same, run.outcome] at outcomes
      exact (Option.map_inj_right fun _ _ => Option.some.inj).mp outcomes.symm

end Living

end Stage

end Intcode
