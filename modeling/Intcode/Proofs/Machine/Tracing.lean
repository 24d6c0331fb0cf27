import Intcode.CommandLine.Execution
import Intcode.Proofs.Machine.Address
import Intcode.Proofs.Machine.Pieces
import Intcode.Proofs.Machine.Simulation
import Mathlib.Data.List.Forall2

/-!
# Tracing

A machine that keeps records does what it does without them. Its records name the instructions that
have been executed, in order, each once; an instruction that fails may have been recorded too. Which
instructions these are is told without the records, from the machine that keeps none.
-/

namespace Intcode

/-- The instruction that a machine is about to execute: where it stands, and its operation. -/
def Machine.instruction? (m : Machine) : Option (Word × Opcode) :=
  if m.halted then none
  else
    match m.memory.read m.ip with
    | .error _ => none
    | .ok w =>
      match Instruction.decode w with
      | .error _ => none
      | .ok i => some (m.ip, i.opcode)

namespace Machine

variable {m : Machine} {p : Plan}

theorem instruction?_of_halted (halted : m.halted = true) : m.instruction? = none :=
  if_pos halted

theorem instruction?_of_plan (running : m.halted = false) (planned : m.plan = .ok p) :
    m.instruction? = some (m.ip, p.opcode) := by
  obtain ⟨w, i, fetched, decoded, operation, -⟩ := exists_action_of_plan planned
  simp only [instruction?, running, Bool.false_eq_true, if_false, fetched, decoded, operation]

def noting (m : Machine) (debug : Bool) (label : String) : Machine := { m with debug, label }

variable (m) (debug : Bool) (label : String)

theorem advance_noting (o : Opcode) :
    (m.noting debug label).advance o = ((m.advance o).1, (m.advance o).2.noting debug label) := by
  have address : (m.noting debug label).paramAddress o.width = m.paramAddress o.width := rfl
  rw [advance, advance, address]
  cases m.paramAddress o.width with
  | error f => rfl
  | ok ip => rfl

theorem commit_noting (p : Plan) (received : Word) : (m.noting debug label).commit p received =
    ((m.commit p received).1, (m.commit p received).2.noting debug label) := by
  obtain ⟨o, action⟩ := p
  cases action with
  | store a b target value =>
    exact advance_noting { m with memory := m.memory.set target value } debug label o
  | input target =>
    exact advance_noting { m with memory := m.memory.set target received } debug label o
  | output v => exact m.advance_noting debug label o
  | adjust delta base => exact advance_noting { m with base } debug label o
  | jump c d taken =>
    cases taken with
    | false => exact m.advance_noting debug label o
    | true =>
      simp only [commit, noting]
      split <;> rfl
  | halt =>
    simp only [commit, stopHere, noting]
    split <;> rfl

theorem turn_noting (received : Word) : (m.noting debug label).turn received =
    ((m.turn received).1, (m.turn received).2.noting debug label) := by
  have planned : (m.noting debug label).plan = m.plan := rfl
  have halted : (m.noting debug label).halted = m.halted := rfl
  rw [turn, turn, planned, halted]
  split
  · rfl
  · cases m.plan with
    | error f => rfl
    | ok p => exact m.commit_noting debug label p received

structure SameRecords (m m' : Machine) : Prop where
  debug : m'.debug = m.debug
  label : m'.label = m.label

theorem turn_sameRecords (received : Word) : m.SameRecords (m.turn received).2 := by
  have turned : (m.turn received).2 = (m.turn received).2.noting m.debug m.label :=
    congrArg Prod.snd (m.turn_noting m.debug m.label received)
  rw [turned]
  exact ⟨rfl, rfl⟩

def traced (m : Machine) : Machine := { m with debug := true }

theorem turn_traced (received : Word) :
    m.traced.turn received = ((m.turn received).1, (m.turn received).2.traced) := by
  have label := (m.turn_sameRecords received).label
  calc m.traced.turn received
      _ = ((m.turn received).1, (m.turn received).2.noting true m.label) :=
        m.turn_noting true m.label received
      _ = ((m.turn received).1, (m.turn received).2.traced) := by
        rw [← label]
        rfl

end Machine

namespace Rig

variable {ι ω : Type} [Channel ι] [Channel ω] {r r' : Rig ι ω}

/-- A step is a turn of the machine, which is noted, or it fails at a channel and leaves the machine
as it was. What the output refuses has been noted before. -/
theorem step_cases (r : Rig ι ω) :
    (∃ received, r.step.rig.machine = (r.machine.turn received).2 ∧
      r.step.rig.trace = r.notes received) ∨
    (∃ s, r.step.result = .error s) ∧ r.step.rig.machine = r.machine ∧
      (r.step.rig.trace = r.trace ∨ r.step.rig.trace = r.notes 0) := by
  cases demand : r.machine.demand with
  | nothing =>
    rw [step_of_nothing r demand]
    exact .inl ⟨0, rfl, rfl⟩
  | word =>
    rw [step_of_word r demand]
    obtain ⟨got, input⟩ := Channel.take r.input
    cases got with
    | error s => exact .inr ⟨⟨s, rfl⟩, rfl, .inl rfl⟩
    | ok v => exact .inl ⟨v, rfl, rfl⟩
  | room v =>
    rw [step_of_room r demand]
    obtain ⟨accepted, output⟩ := Channel.put r.output v
    cases accepted with
    | error s => exact .inr ⟨⟨s, rfl⟩, rfl, .inr rfl⟩
    | ok u => exact .inl ⟨0, rfl, rfl⟩

theorem step_sameRecords (r : Rig ι ω) : r.machine.SameRecords r.step.rig.machine := by
  rcases step_cases r with ⟨received, turned, -⟩ | ⟨-, same, -⟩
  · rw [turned]
    exact r.machine.turn_sameRecords received
  · rw [same]
    exact ⟨rfl, rfl⟩

/-- A rig, and the same rig but that its machine keeps records. -/
structure Shadows (r r' : Rig ι ω) : Prop where
  machine : r'.machine = r.machine.traced
  input : r'.input = r.input
  output : r'.output = r.output

theorem Shadows.step (same : r.Shadows r') :
    r'.advance.1 = r.advance.1 ∧ r.advance.2.Shadows r'.advance.2 := by
  obtain ⟨m, input, output, trace⟩ := r
  obtain ⟨m', input', output', trace'⟩ := r'
  obtain ⟨machines, inputs, outputs⟩ := same
  dsimp only at machines inputs outputs
  subst machines inputs outputs
  have turned := m.turn_traced
  rw [advance, advance]
  cases demand : m.demand with
  | nothing =>
    have demand' : m.traced.demand = .nothing := demand
    rw [step_of_nothing _ demand, step_of_nothing _ demand']
    dsimp only
    rw [turned]
    exact ⟨rfl, rfl, rfl, rfl⟩
  | word =>
    have demand' : m.traced.demand = .word := demand
    rw [step_of_word _ demand, step_of_word _ demand']
    dsimp only
    obtain ⟨got, rest⟩ := Channel.take input'
    cases got with
    | error s => exact ⟨rfl, rfl, rfl, rfl⟩
    | ok v =>
      dsimp only
      rw [turned]
      exact ⟨rfl, rfl, rfl, rfl⟩
  | room v =>
    have demand' : m.traced.demand = .room v := demand
    rw [step_of_room _ demand, step_of_room _ demand']
    dsimp only
    obtain ⟨accepted, rest⟩ := Channel.put output' v
    cases accepted with
    | error s => exact ⟨rfl, rfl, rfl, rfl⟩
    | ok u =>
      dsimp only
      rw [turned]
      exact ⟨rfl, rfl, rfl, rfl⟩

/-- What the records of a rig name, each by its label, an address and an operation. -/
def named (r : Rig ι ω) : List (String × Word × Opcode) :=
  r.trace.toList.map fun record => (record.label, record.ip, record.plan.opcode)

/-- The next step records these instructions. -/
def Adds (r : Rig ι ω) (is : List (Word × Opcode)) : Prop :=
  r.step.rig.named = r.named ++ is.map (r.machine.label, ·)

omit [Channel ι] [Channel ω] in
theorem notes_of_silent (silent : r.machine.debug = false) (received : Word) :
    r.notes received = r.trace := by
  have unrecorded (p : Plan) : recorded r.machine p received r.trace = r.trace := by
    rw [recorded, silent]
    rfl
  rw [notes]
  split
  · rfl
  · split
    · rfl
    · exact unrecorded _

/-- A step either notes its instruction, if that was resolved, or fails without a note. -/
theorem trace_step (r : Rig ι ω) : (∃ received, r.step.rig.trace = r.notes received) ∨
    (∃ s, r.step.result = .error s) ∧ r.step.rig.trace = r.trace := by
  rcases step_cases r with ⟨received, -, noted⟩ | ⟨failed, -, same | noted⟩
  · exact .inl ⟨received, noted⟩
  · exact .inr ⟨failed, same⟩
  · exact .inl ⟨0, noted⟩

theorem trace_of_silent (silent : r.machine.debug = false) : r.step.rig.trace = r.trace := by
  rcases trace_step r with ⟨received, noted⟩ | ⟨-, same⟩
  · rw [noted, notes_of_silent silent]
  · exact same

theorem Adds.of_trace (same : r.step.rig.trace = r.trace) : r.Adds [] := by
  rw [Adds, named, same, List.map_nil, List.append_nil]
  rfl

theorem Adds.of_halted (halted : r.machine.halted = true) :
    r.Adds r.machine.instruction?.toList := by
  rw [Machine.instruction?_of_halted halted]
  refine .of_trace ?_
  rw [step_of_halted r halted]

theorem Adds.of_plan {p : Plan} {received : Word} (debug : r.machine.debug = true)
    (running : r.machine.halted = false) (planned : r.machine.plan = .ok p)
    (noted : r.step.rig.trace = r.notes received) : r.Adds r.machine.instruction?.toList := by
  rw [notes, running, planned] at noted
  simp only [Bool.false_eq_true, if_false, recorded, debug, if_true] at noted
  rw [Adds, named, noted, Array.toList_push, List.map_append,
    Machine.instruction?_of_plan running planned]
  rfl

/-- A step that goes through records its instruction; on a halted machine there is none. -/
theorem Adds.of_ok {progress : Progress} (debug : r.machine.debug = true)
    (went : r.step.result = .ok progress) : r.Adds r.machine.instruction?.toList := by
  cases running : r.machine.halted with
  | true => exact .of_halted running
  | false =>
    obtain ⟨p, _, planned, -⟩ := exists_commit_of_ok running went
    rcases trace_step r with ⟨received, noted⟩ | ⟨⟨s, failed⟩, -⟩
    · exact .of_plan debug running planned noted
    · rw [failed] at went
      cases went

/-- A step that fails records its instruction or nothing. -/
theorem adds_or (debug : r.machine.debug = true) :
    r.Adds r.machine.instruction?.toList ∨ r.Adds [] := by
  cases running : r.machine.halted with
  | true => exact .inl (.of_halted running)
  | false =>
    rcases trace_step r with ⟨received, noted⟩ | ⟨-, same⟩
    · cases planned : r.machine.plan with
      | ok p => exact .inl (.of_plan debug running planned noted)
      | error f =>
        refine .inr (.of_trace ?_)
        rw [noted, notes, running, planned]
        rfl
    · exact .inr (.of_trace same)

/-- The instructions that the first `n` steps execute, each with its address. -/
def executed : Nat → Rig ι ω → List (Word × Opcode)
  | 0, _ => []
  | n + 1, r => r.machine.instruction?.toList ++ executed n r.step.rig

def Went (n : Nat) (r : Rig ι ω) : Prop :=
  ∀ shown ∈ (watch advance n r).1, ∃ progress, shown.1 = .ok progress

theorem went_succ {n : Nat} : Went (n + 1) r ↔
    (∃ progress, r.step.result = .ok progress) ∧ Went n r.step.rig :=
  List.forall_mem_cons

/-- The last of some steps is made in the state that the others lead to. -/
theorem watch_succ (n : Nat) (r : Rig ι ω) :
    (watch advance (n + 1) r).2 = (watch advance n r).2.step.rig := by
  induction n generalizing r with
  | zero => rfl
  | succ n ih => exact ih r.step.rig

theorem Shadows.watch (same : r.Shadows r') (n : Nat) :
    (watch advance n r').1 = (watch advance n r).1 ∧
      (watch advance n r).2.Shadows (watch advance n r').2 :=
  watch_of_step (R := fun r' r : Rig ι ω => r.Shadows r') (P := fun _ => True)
    (fun _ _ same _ => same.step) same n fun _ _ => trivial

theorem watch_sameRecords (n : Nat) (r : Rig ι ω) :
    r.machine.SameRecords (Intcode.watch advance n r).2.machine := by
  induction n generalizing r with
  | zero => exact ⟨rfl, rfl⟩
  | succ n ih =>
    have first := r.step_sameRecords
    have rest := ih r.step.rig
    exact ⟨rest.debug.trans first.debug, rest.label.trans first.label⟩

theorem watch_trace_of_silent (silent : r.machine.debug = false) (n : Nat) :
    (Intcode.watch advance n r).2.trace = r.trace := by
  induction n with
  | zero => rfl
  | succ n ih =>
    rw [watch_succ, trace_of_silent ((watch_sameRecords n r).debug.trans silent), ih]

/-- Steps that go through record the instructions that the machine without records executes. -/
theorem Shadows.named_watch (same : r.Shadows r') {n : Nat} (went : Went n r) :
    (Intcode.watch advance n r').2.named =
      r'.named ++ (executed n r).map (r.machine.label, ·) := by
  induction n generalizing r r' with
  | zero => exact (List.append_nil r'.named).symm
  | succ n ih =>
    obtain ⟨⟨progress, ok⟩, later⟩ := went_succ.mp went
    obtain ⟨shown, next⟩ := same.step
    have debug : r'.machine.debug = true := by rw [same.machine]; rfl
    have adds := Adds.of_ok debug ((congrArg Prod.fst shown).trans ok)
    have sameInstruction : r'.machine.instruction? = r.machine.instruction? := by
      rw [same.machine]; rfl
    have sameLabel : r'.machine.label = r.machine.label := by rw [same.machine]; rfl
    rw [Adds, sameInstruction, sameLabel] at adds
    have rest : (Intcode.watch advance n r'.step.rig).2.named =
        r'.step.rig.named ++ (executed n r.step.rig).map (r.step.rig.machine.label, ·) :=
      ih next later
    rw [r.step_sameRecords.label, adds] at rest
    rw [executed, List.map_append, ← List.append_assoc]
    exact rest

/-- A step after those that go through records its instruction or nothing. -/
theorem Shadows.named_watch_succ (same : r.Shadows r') {n : Nat} (went : Went n r) :
    ∃ extra, (extra = [] ∨ extra = (Intcode.watch advance n r).2.machine.instruction?.toList) ∧
      (Intcode.watch advance (n + 1) r').2.named =
        r'.named ++ (executed n r ++ extra).map (r.machine.label, ·) := by
  have before := same.named_watch went
  have machine := (same.watch n).2.machine
  have label := (watch_sameRecords n r).label
  rw [watch_succ]
  generalize Intcode.watch advance n r = seen at machine label ⊢
  generalize (Intcode.watch advance n r').2 = last' at before machine ⊢
  have debug : last'.machine.debug = true := by rw [machine]; rfl
  have sameInstruction : last'.machine.instruction? = seen.2.machine.instruction? := by
    rw [machine]; rfl
  have sameLabel : last'.machine.label = r.machine.label := by rw [machine]; exact label
  rcases adds_or debug with adds | adds
  · refine ⟨_, .inr rfl, ?_⟩
    rw [adds, before, sameInstruction, sameLabel, List.map_append, List.append_assoc]
  · refine ⟨[], .inl rfl, ?_⟩
    rw [adds, before, List.append_nil]
    exact List.append_nil _

/-- Of a run `n` steps go through. A further one may have ended it with an error. -/
def Makes (fuel n : Nat) (r : Rig ι ω) : Prop :=
  Went n r ∧
    ((∀ s, (r.run fuel).1 ≠ some (.error s)) ∧ (r.run fuel).2 = (watch advance n r).2 ∨
      (∃ s, (r.run fuel).1 = some (.error s)) ∧ (r.run fuel).2 = (watch advance (n + 1) r).2)

section Makes

variable {fuel n : Nat}

theorem makes_of_error {s : Stop} (result : r.step.result = .error s) : Makes (fuel + 1) 0 r := by
  have first := run_succ r fuel
  rw [result] at first
  exact ⟨nofun, .inr ⟨⟨s, congrArg Prod.fst first⟩, congrArg Prod.snd first⟩⟩

theorem makes_of_halted (result : r.step.result = .ok .halted) : Makes (fuel + 1) 1 r := by
  have first := run_succ r fuel
  rw [result] at first
  refine ⟨went_succ.mpr ⟨⟨_, result⟩, nofun⟩, .inl ⟨fun s => ?_, congrArg Prod.snd first⟩⟩
  rw [first]
  nofun

theorem makes_of_running (result : r.step.result = .ok .running)
    (makes : Makes fuel n r.step.rig) : Makes (fuel + 1) (n + 1) r := by
  have first := run_succ r fuel
  rw [result] at first
  obtain ⟨went, ends⟩ := makes
  refine ⟨went_succ.mpr ⟨⟨_, result⟩, went⟩, ?_⟩
  rw [first]
  exact ends

end Makes

/-- As many steps go through with records as without. -/
theorem Shadows.exists_makes (same : r.Shadows r') (fuel : Nat) :
    ∃ n, Makes fuel n r ∧ Makes fuel n r' := by
  induction fuel generalizing r r' with
  | zero => exact ⟨0, ⟨nofun, .inl ⟨nofun, rfl⟩⟩, ⟨nofun, .inl ⟨nofun, rfl⟩⟩⟩
  | succ fuel ih =>
    obtain ⟨shown, next⟩ := same.step
    have results : r'.step.result = r.step.result := congrArg Prod.fst shown
    cases result : r.step.result with
    | error s => exact ⟨0, makes_of_error result, makes_of_error (results.trans result)⟩
    | ok progress =>
      cases progress with
      | halted => exact ⟨1, makes_of_halted result, makes_of_halted (results.trans result)⟩
      | running =>
        obtain ⟨n, makes, makes'⟩ := ih next
        exact ⟨n + 1, makes_of_running result makes,
          makes_of_running (results.trans result) makes'⟩

theorem Shadows.run (same : r.Shadows r') (fuel : Nat) :
    (r'.run fuel).1 = (r.run fuel).1 ∧ (r.run fuel).2.Shadows (r'.run fuel).2 := by
  induction fuel generalizing r r' with
  | zero => exact ⟨rfl, same⟩
  | succ fuel ih =>
    obtain ⟨shown, next⟩ := same.step
    have results : r'.step.result = r.step.result := congrArg Prod.fst shown
    have halts : r'.step.rig.machine.haltState = r.step.rig.machine.traced.haltState :=
      congrArg Machine.haltState next.machine
    rw [run_succ, run_succ, results]
    cases r.step.result with
    | error s => exact ⟨rfl, next⟩
    | ok progress =>
      cases progress with
      | halted => exact ⟨congrArg (some ∘ Except.ok) halts, next⟩
      | running => exact ih next

/-- A run of which `n` steps go through has recorded their instructions, and if it failed maybe the
one that failed. -/
theorem Shadows.named_run (same : r.Shadows r') {fuel n : Nat} (makes : Makes fuel n r)
    (makes' : Makes fuel n r') :
    ∃ extra, (extra = [] ∨ (∃ s, (r.run fuel).1 = some (.error s)) ∧
        extra = (Intcode.watch advance n r).2.machine.instruction?.toList) ∧
      (r'.run fuel).2.named = r'.named ++ (executed n r ++ extra).map (r.machine.label, ·) := by
  obtain ⟨went, -⟩ := makes
  obtain ⟨-, ⟨-, ended⟩ | ⟨failed, ended⟩⟩ := makes'
  · refine ⟨[], .inl rfl, ?_⟩
    rw [ended, same.named_watch went, List.append_nil]
  · obtain ⟨extra, which, named⟩ := same.named_watch_succ went
    rw [(same.run fuel).1] at failed
    exact ⟨extra, which.imp_right fun last => ⟨failed, last⟩, ended ▸ named⟩

theorem run_trace_of_silent (silent : r.machine.debug = false) {fuel n : Nat}
    (makes : Makes fuel n r) : (r.run fuel).2.trace = r.trace := by
  obtain ⟨-, ⟨-, ended⟩ | ⟨-, ended⟩⟩ := makes
  · rw [ended, watch_trace_of_silent silent]
  · rw [ended, watch_trace_of_silent silent]

end Rig

/-- A record names an instruction: it is made at its address, and its text begins with the label,
the address and the mnemonic. -/
structure Record.Names (record : Record) (label : String) (i : Word × Opcode) : Prop where
  ip : record.ip = i.1
  operation : record.plan.opcode = i.2
  text : record.text = s!"[{label}] " ++ (Text.alignRight 5 i.1.text ++ ": " ++
    Text.alignLeft 4 i.2.mnemonic ++ " " ++ record.detail)

namespace Rig

variable {ι ω : Type} [Channel ι] [Channel ω]

/-- The records of a rig name these instructions, one each and in order. -/
def Recorded (r : Rig ι ω) (label : String) (is : List (Word × Opcode)) : Prop :=
  List.Forall₂ (fun record i => record.Names label i) r.trace.toList is

omit [Channel ι] [Channel ω] in
theorem recorded_of_named {r : Rig ι ω} {label : String} {is : List (Word × Opcode)}
    (same : r.named = is.map (label, ·)) : r.Recorded label is := by
  rw [named, ← List.forall₂_eq_eq_eq, List.forall₂_map_left_iff, List.forall₂_map_right_iff] at same
  refine same.imp fun record i equal => ?_
  obtain ⟨labels, addresses, operations⟩ : record.label = label ∧ record.ip = i.1 ∧
      record.plan.opcode = i.2 := by simpa [Prod.ext_iff] using equal
  refine ⟨addresses, operations, ?_⟩
  rw [← labels, ← addresses, ← operations]
  rfl

end Rig

namespace CommandLine

def reportOn (result : Option (Except Stop HaltState)) (output : List Word) :
    Except Problem Report :=
  ((Failure.ofRun result).map fun _ => .output output).mapError .ofFailure

variable (fuel : Nat) (p : Program) (xs : List Word)

theorem run_traced : CommandLine.run fuel p xs true =
    (reportOn ((Rig.onTape p "main" true xs).run fuel).1
      ((Rig.onTape p "main" true xs).run fuel).2.output.toList,
      [("main", ((Rig.onTape p "main" true xs).run fuel).2.trace)]) := by
  rw [CommandLine.run, if_pos rfl, Rig.runOn_load, reportOn]
  cases Failure.ofRun ((Rig.onTape p "main" true xs).run fuel).1 <;> rfl

theorem run_untraced : CommandLine.run fuel p xs false =
    (reportOn ((Rig.onTape p "main" false xs).run fuel).1
      ((Rig.onTape p "main" false xs).run fuel).2.output.toList, []) := by
  rw [CommandLine.run, if_neg Bool.false_ne_true, Program.run, Rig.runOn_load, reportOn]
  cases Failure.ofRun ((Rig.onTape p "main" false xs).run fuel).1 <;> rfl

end CommandLine

namespace Rig

variable {ι ω : Type} [Channel ι] [Channel ω]

/-- Tracing changes nothing but the records. Without it there are none. With it there is one for
each instruction that has been executed, in order, and at most one more, for an instruction with
which a run failed. The report on a run from the command line is the same with tracing. -/
theorem tracing_only_records (p : Program) (label : String) (input : ι) (output : ω) :
    let plain : Rig ι ω := ⟨.load p label false, input, output, #[]⟩
    let traced : Rig ι ω := ⟨.load p label true, input, output, #[]⟩
    (∀ n, (watch advance n traced).1 = (watch advance n plain).1 ∧
      (watch advance n plain).2.Shadows (watch advance n traced).2 ∧
      (watch advance n plain).2.trace = #[] ∧
      (Went n plain → (watch advance n traced).2.Recorded label (executed n plain))) ∧
    (∀ fuel, (traced.run fuel).1 = (plain.run fuel).1 ∧
      (plain.run fuel).2.Shadows (traced.run fuel).2 ∧ (plain.run fuel).2.trace = #[] ∧
      ∃ n extra, Makes fuel n plain ∧
        (traced.run fuel).2.Recorded label (executed n plain ++ extra) ∧
        (extra = [] ∨ (∃ s, (plain.run fuel).1 = some (.error s)) ∧
          extra = (watch advance n plain).2.machine.instruction?.toList)) ∧
    ∀ fuel xs, (CommandLine.run fuel p xs true).1 = (CommandLine.run fuel p xs false).1 ∧
      (CommandLine.run fuel p xs false).2 = [] ∧
      (CommandLine.run fuel p xs true).2 =
        [("main", ((onTape p "main" true xs).run fuel).2.trace)] := by
  intro plain traced
  have same : plain.Shadows traced := ⟨rfl, rfl, rfl⟩
  have silent : plain.machine.debug = false := rfl
  refine ⟨fun n => ?_, fun fuel => ?_, fun fuel xs => ?_⟩
  · obtain ⟨shown, shadows⟩ := same.watch n
    exact ⟨shown, shadows, watch_trace_of_silent silent n,
      fun went => recorded_of_named (same.named_watch went)⟩
  · obtain ⟨result, shadows⟩ := same.run fuel
    obtain ⟨n, makes, makes'⟩ := same.exists_makes fuel
    obtain ⟨extra, which, named⟩ := same.named_run makes makes'
    exact ⟨result, shadows, run_trace_of_silent silent makes, n, extra, makes,
      recorded_of_named named, which⟩
  · have same : (onTape p "main" false xs).Shadows (onTape p "main" true xs) := ⟨rfl, rfl, rfl⟩
    obtain ⟨result, shadows⟩ := same.run fuel
    have output : (((onTape p "main" true xs).run fuel).2.output).toList =
        (((onTape p "main" false xs).run fuel).2.output).toList :=
      congrArg Tape.toList shadows.output
    rw [CommandLine.run_traced, CommandLine.run_untraced, result, output]
    exact ⟨rfl, rfl, rfl⟩

/-- A jump below zero fails, but it is recorded behind the instruction that went through. -/
theorem tracing_records_failing_jump :
    let p : Program := ⟨#[104, 7, 1105, 1, -1]⟩
    let plain := onTape p "main" false []
    let traced := onTape p "main" true []
    Went 1 plain ∧ (watch advance 1 traced).2.Recorded "main" [(0, .output)] ∧
      (traced.run 9).2.trace.toList.map Record.text =
        ["[main]     0: OUT  7", "[main]     2: JNZ  1 -1 taken=true"] ∧
      (CommandLine.run 9 p [] true).1 = (CommandLine.run 9 p [] false).1 := by
  intro p plain traced
  obtain ⟨steps, -, reports⟩ :=
    tracing_only_records p "main" (Tape.ofList []) ({} : Tape)
  have went : Went 1 plain := went_succ.mpr ⟨⟨.running, by decide +kernel⟩, nofun⟩
  have first : executed 1 plain = [(0, .output)] := by decide +kernel
  exact ⟨went, first ▸ (steps 1).2.2.2 went, by decide +kernel, (reports 9 []).1⟩

end Rig

end Intcode
