import Intcode.Proofs.Circuit.Life

/-!
# Rows of stages

What chains and rings have in common. Every stage of a row is fed its phase and then what the stage
before it emits, and it finds its inbox closed only after that stage is over. `Row` says this of the
stages from one index on, given what the first of them was fed and what the last has emitted, and
every act of a stage preserves it.
-/

namespace Intcode

namespace Stage

def headOver? (stages : List Stage) : Option Outcome := stages.head?.bind (·.cpu.over?)

def tailOver? (stages : List Stage) : Option Outcome := stages.getLast?.bind (·.cpu.over?)

/-- Whether the first stage is fed no more. -/
def headClosed (stages : List Stage) : Bool := stages.head?.any (·.inbox.closed)

def HeadUnheard (stages : List Stage) : Prop := ∀ s ∈ stages.head?, s.cpu.Unheard

@[simp] theorem headClosed_cons (s : Stage) (stages : List Stage) :
    headClosed (s :: stages) = s.inbox.closed := by
  simp [headClosed]

@[simp] theorem tailOver?_cons_cons (s t : Stage) (stages : List Stage) :
    tailOver? (s :: t :: stages) = tailOver? (t :: stages) := by
  simp [tailOver?, List.getLast?_cons_cons]

/-- The stages from `index` on. The first of them was fed `fed`, the phases are those of the others,
and the last one has emitted `emitted`. -/
inductive Row (p : Program) (debug : Bool) :
    Nat → List Word → List Word → List Stage → Wire → List Word → Prop
  | last {index : Nat} {fed emitted : List Word} {cpu : Processor Unit} {inbox outlet : Wire}
      (life : Life p debug index cpu inbox fed emitted)
      (accepts : cpu.over? = none → outlet.closed = false) :
      Row p debug index fed [] [⟨cpu, inbox⟩] outlet emitted
  | cons {index : Nat} {fed passed phases emitted : List Word} {phase : Word}
      {cpu next : Processor Unit} {inbox between outlet : Wire} {rest : List Stage}
      (life : Life p debug index cpu inbox fed passed)
      (accepts : cpu.over? = none → between.closed = false)
      (starves : Starved next → cpu.over? ≠ none) (unheard : next.Unheard)
      (row : Row p debug (index + 1) (phase :: passed) phases (⟨next, between⟩ :: rest) outlet
        emitted) :
      Row p debug index fed (phase :: phases) (⟨cpu, inbox⟩ :: ⟨next, between⟩ :: rest) outlet
        emitted

def tailWords (index : Nat) (stages : List Stage) (outlet : Wire) : List Word :=
  if index + 1 = stages.length then (actAt index stages outlet).1.words else []

structure Moves (stages : List Stage) (outlet : Wire) (words : List Word)
    (event : Processor.Event Unit) (stages' : List Stage) (outlet' : Wire) : Prop where
  length : stages'.length = stages.length
  said : outlet'.toList = outlet.toList ++ words
  headStays : headOver? stages ≠ none → headOver? stages' = headOver? stages
  sealing : headClosed stages' = headClosed stages
  starves : headOver? stages' = some (.error .notConnected) →
    headOver? stages = some (.error .notConnected) ∨ headClosed stages = true
  tailStays : tailOver? stages ≠ none → words = [] ∧ tailOver? stages' = tailOver? stages
  notifies : event = .notified () → headOver? stages ≠ none ∧ ¬ HeadUnheard stages
  unheard : HeadUnheard stages → HeadUnheard stages'

variable {p : Program} {debug : Bool}

/-- More arrives in the inbox of the first stage. -/
theorem Row.feed {index : Nat} {fed phases emitted : List Word} {cpu : Processor Unit}
    {inbox outlet : Wire} {rest : List Stage}
    (row : Row p debug index fed phases (⟨cpu, inbox⟩ :: rest) outlet emitted) (inbox' : Wire)
    (more : List Word) (unstarved : Starved cpu → more = [])
    (arrived : inbox'.toList = inbox.toList ++ more) :
    Row p debug index (fed ++ more) phases (⟨cpu, inbox'⟩ :: rest) outlet emitted := by
  cases row with
  | last life accepts => exact .last (life.feed unstarved arrived) accepts
  | cons life accepts starves unheard row =>
    exact .cons (life.feed unstarved arrived) accepts starves unheard row

theorem tailOver?_feed (cpu : Processor Unit) (inbox inbox' : Wire) (rest : List Stage) :
    tailOver? (⟨cpu, inbox'⟩ :: rest) = tailOver? (⟨cpu, inbox⟩ :: rest) := by
  cases rest with
  | nil => rfl
  | cons s rest => rw [tailOver?_cons_cons, tailOver?_cons_cons]

/-- An act of a stage that is the whole row. -/
theorem moves_last {cpu : Processor Unit} (inbox : Wire) {outlet : Wire}
    (accepts : cpu.over? = none → outlet.closed = false) :
    Moves [⟨cpu, inbox⟩] outlet (cpu.act inbox outlet).event.words (cpu.act inbox outlet).event
      [⟨(cpu.act inbox outlet).processor, (cpu.act inbox outlet).input⟩]
      (cpu.act inbox outlet).output := by
  have fits := act_fits inbox accepts
  refine ⟨rfl, fits.said, fits.persists, ?_, ?_,
    fun finished => ⟨fits.silent finished, fits.persists finished⟩, ?_, ?_⟩
  · rw [headClosed_cons, headClosed_cons]
    exact fits.sealing
  · intro starved
    rw [headClosed_cons]
    exact fits.starves starved
  · intro notified
    refine ⟨fits.notifies () notified, fun unheard => ?_⟩
    exact (Processor.act_unheard (unheard _ rfl) inbox outlet).2 () notified
  · intro unheard s here
    cases here
    exact (Processor.act_unheard (unheard _ rfl) inbox outlet).1

/-- An act of the first of several stages. -/
theorem moves_first {cpu next : Processor Unit} {inbox between outlet : Wire} {rest : List Stage}
    (accepts : cpu.over? = none → between.closed = false) :
    Moves (⟨cpu, inbox⟩ :: ⟨next, between⟩ :: rest) outlet [] (cpu.act inbox between).event
      (⟨(cpu.act inbox between).processor, (cpu.act inbox between).input⟩ ::
        ⟨next, (cpu.act inbox between).output⟩ :: rest) outlet := by
  obtain ⟨_, _, headStays, sealing, starves, _, notifies, unheard⟩ :=
    moves_last inbox accepts
  refine ⟨rfl, (List.append_nil _).symm, headStays, sealing, starves, ?_, notifies, unheard⟩
  intro _
  refine ⟨rfl, ?_⟩
  rw [tailOver?_cons_cons, tailOver?_cons_cons]
  exact tailOver?_feed next between _ rest

/-- An act of a stage that is not the first. -/
theorem Moves.behind {t t' : Stage} {rest rest' : List Stage} {outlet outlet' : Wire}
    {words : List Word} {event : Processor.Event Unit}
    (moves : Moves (t :: rest) outlet words event (t' :: rest') outlet') (unheard : t.cpu.Unheard)
    (s : Stage) : Moves (s :: t :: rest) outlet words event (s :: t' :: rest') outlet' := by
  refine ⟨?_, moves.said, fun _ => rfl, rfl, Or.inl, ?_, ?_, fun heard => heard⟩
  · rw [List.length_cons, moves.length]
    rfl
  · rw [tailOver?_cons_cons, tailOver?_cons_cons]
    exact moves.tailStays
  · intro notified
    refine absurd ?_ (moves.notifies notified).2
    intro u here
    cases here
    exact unheard

/-- An act of a stage keeps the row in order and adds to what the last stage has emitted. -/
theorem Row.act {index i : Nat} {fed phases emitted : List Word} {stages : List Stage}
    {outlet : Wire} (row : Row p debug index fed phases stages outlet emitted)
    (here : i < stages.length) :
    Row p debug index fed phases (actAt i stages outlet).2.1 (actAt i stages outlet).2.2
        (emitted ++ tailWords i stages outlet) ∧
      Moves stages outlet (tailWords i stages outlet) (actAt i stages outlet).1
        (actAt i stages outlet).2.1 (actAt i stages outlet).2.2 := by
  induction row generalizing i with
  | last life accepts =>
    obtain rfl : i = 0 := by
      simp only [List.length_singleton] at here
      omega
    exact ⟨.last (life.act accepts) (act_fits _ accepts).accepts, moves_last _ accepts⟩
  | cons life accepts starves unheard row ih =>
    rename_i index fed passed phases emitted phase cpu next inbox between outlet rest
    cases i with
    | zero =>
      have fits := act_fits inbox accepts
      have silent : Starved next → (cpu.act inbox between).event.words = [] :=
        fun starved => fits.silent (starves starved)
      have quiet : tailWords 0 (⟨cpu, inbox⟩ :: ⟨next, between⟩ :: rest) outlet = [] := by
        simp [tailWords]
      rw [quiet, List.append_nil]
      refine ⟨.cons (life.act accepts) fits.accepts ?_ unheard (row.feed _ _ silent fits.said),
        moves_first accepts⟩
      intro starved
      have finished := starves starved
      exact fun running => finished ((fits.persists finished).symm.trans running)
    | succ i =>
      have later : tailWords (i + 1) (⟨cpu, inbox⟩ :: ⟨next, between⟩ :: rest) outlet =
          tailWords i (⟨next, between⟩ :: rest) outlet := by
        simp [tailWords, actAt]
      have acted : actAt (i + 1) (⟨cpu, inbox⟩ :: ⟨next, between⟩ :: rest) outlet =
          ((actAt i (⟨next, between⟩ :: rest) outlet).1,
            ⟨cpu, inbox⟩ :: (actAt i (⟨next, between⟩ :: rest) outlet).2.1,
            (actAt i (⟨next, between⟩ :: rest) outlet).2.2) := rfl
      obtain ⟨row', moves⟩ := ih (Nat.lt_of_succ_lt_succ here)
      rw [later, acted]
      revert row' moves
      obtain ⟨event, stages', outlet'⟩ := actAt i (⟨next, between⟩ :: rest) outlet
      cases stages' with
      | nil => intro row'; cases row'
      | cons t' rest' =>
        obtain ⟨next', between'⟩ := t'
        intro row' moves
        have sealing : between'.closed = between.closed := by simpa using moves.sealing
        refine ⟨.cons life ?_ ?_ ?_ row', moves.behind unheard _⟩
        · rw [sealing]
          exact accepts
        · intro starved
          rcases moves.starves starved with before | closed
          · exact starves before
          · intro running
            rw [headClosed_cons, accepts running] at closed
            cases closed
        · exact moves.unheard (fun s here => by cases here; exact unheard) _ rfl

/-- A row before its first act. -/
theorem Row.start {index : Nat} {fed : List Word} (cpu : Processor Unit) {inbox : Wire}
    (contents : inbox.toList = fed) (id : cpu.id = label index)
    (machine : cpu.machine = Machine.load p (label index) debug) (fresh : cpu.over? = none)
    (phases : List Word) :
    Row p debug index fed phases
      (⟨cpu, inbox⟩ :: (phases.zipIdx (index + 1)).map fun e => load p debug e.2 e.1) {} [] := by
  induction phases generalizing index fed cpu inbox with
  | nil => exact .last (.start contents id machine fresh) fun _ => rfl
  | cons phase phases ih =>
    have row := ih (load p debug (index + 1) phase).cpu (Wire.toList_ofList [phase]) rfl rfl rfl
    exact .cons (.start contents id machine fresh) (fun _ => rfl) nofun ⟨rfl, nofun⟩ row

/-- The outlet of a row accepts values while the last stage is not over. -/
theorem Row.outlet_open {index : Nat} {fed phases emitted : List Word} {stages : List Stage}
    {outlet : Wire} (row : Row p debug index fed phases stages outlet emitted)
    (running : tailOver? stages = none) : outlet.closed = false := by
  induction row with
  | last life accepts => exact accepts running
  | cons life accepts starves unheard row ih =>
    rw [tailOver?_cons_cons] at running
    exact ih running

/-- Taking values from the outlet is of no concern to the row. -/
theorem Row.drain {index : Nat} {fed phases emitted : List Word} {stages : List Stage}
    {outlet outlet' : Wire} (row : Row p debug index fed phases stages outlet emitted)
    (same : outlet'.closed = outlet.closed) :
    Row p debug index fed phases stages outlet' emitted := by
  induction row with
  | last life accepts =>
    rw [← same] at accepts
    exact .last life accepts
  | cons life accepts starves unheard row ih => exact .cons life accepts starves unheard (ih same)

def overs (stages : List Stage) : List (Option Outcome) := stages.map (·.cpu.over?)

theorem not_mem_overs_cons {s : Stage} {stages : List Stage} :
    none ∉ overs (s :: stages) ↔ s.cpu.over? ≠ none ∧ none ∉ overs stages := by
  rw [overs, List.map_cons, List.mem_cons, not_or, ne_comm]
  rfl

theorem Row.tail_over {index : Nat} {fed phases emitted : List Word} {stages : List Stage}
    {outlet : Wire} (row : Row p debug index fed phases stages outlet emitted)
    (finished : none ∉ overs stages) : tailOver? stages ≠ none := by
  induction row with
  | last life accepts => exact (not_mem_overs_cons.mp finished).1
  | cons life accepts starves unheard row ih =>
    rw [tailOver?_cons_cons]
    exact ih (not_mem_overs_cons.mp finished).2

/-- Two rows whose inputs belong to one list, and all stages of one of them are over. The other one
is on its way to the same end. -/
theorem Row.agree {index : Nat} {fed fed' phases emitted emitted' : List Word}
    {stages stages' : List Stage} {outlet outlet' : Wire}
    (row : Row p debug index fed phases stages outlet emitted)
    (row' : Row p debug index fed' phases stages' outlet' emitted') (script : List Word)
    (begins : fed <+: script) (begins' : fed' <+: script)
    (whole : headOver? stages = some (.error .notConnected) → script = fed)
    (whole' : headOver? stages' = some (.error .notConnected) → script = fed')
    (finished : none ∉ overs stages) :
    emitted' <+: emitted ∧ (tailOver? stages' ≠ none → emitted' = emitted) ∧
      (none ∉ overs stages' → overs stages' = overs stages) := by
  induction row generalizing fed' emitted' stages' outlet' script with
  | last life accepts =>
    cases row' with
    | last life' accepts' =>
      obtain ⟨running, -⟩ := not_mem_overs_cons.mp finished
      obtain ⟨grows, ends⟩ := life.agree life' begins begins' whole whole' running
      refine ⟨grows, fun over' => (ends over').1, fun over' => ?_⟩
      exact congrArg (· :: []) (ends (not_mem_overs_cons.mp over').1).2
  | cons life accepts starves unheard row ih =>
    rename_i index fed passed phases emitted phase cpu next inbox between outlet rest
    cases row' with
    | cons life' accepts' starves' unheard' row' =>
      obtain ⟨first, others⟩ := not_mem_overs_cons.mp finished
      obtain ⟨grows, ends⟩ := life.agree life' begins begins' whole whole' first
      have further := ih row' (phase :: passed) (List.prefix_refl _)
        (List.cons_prefix_cons.mpr ⟨rfl, grows⟩) (fun _ => rfl)
        (fun starved => by rw [(ends (starves' starved)).1]) others
      refine ⟨further.1, ?_, fun over' => ?_⟩
      · rw [tailOver?_cons_cons]
        exact further.2.1
      · obtain ⟨first', others'⟩ := not_mem_overs_cons.mp over'
        exact List.cons_eq_cons.mpr ⟨(ends first').2, further.2.2 others'⟩

end Stage

end Intcode
