import Intcode.Proofs.Machine.FailedStep
import Intcode.Proofs.Machine.Pieces
import Intcode.Proofs.Shell.Line

/-!
# Stepping and running

A session steps a machine that it keeps from one command to the next, and drops the output of each
step once it is shown. A run has a machine of its own and shows all output at its end. Both come to
the same: `Abreast` says how the two machines are related between steps, and `Answers` what the
session shows for each step that the run makes.
-/

namespace Intcode

namespace Rig

variable {r s : Rig Tape Tape} {shown : List Word}

/-- A machine that runs, and the same machine in a session that has shown what the first has put out
so far. How a tape keeps its values does not count, nor do the records. -/
structure Abreast (shown : List Word) (r s : Rig Tape Tape) : Prop where
  machine : s.machine = r.machine
  running : r.machine.halted = false
  input : s.input.toList = r.input.toList
  shown : r.output.toList = shown
  drained : s.output.toList = []

/-- What the two machines have in common after a step: the first has put out what the second has
behind what was shown before. -/
structure Alike (shown : List Word) (r s : Rig Tape Tape) : Prop where
  machine : s.machine = r.machine
  input : s.input.toList = r.input.toList
  output : r.output.toList = shown ++ s.output.toList

theorem Abreast.alike (abreast : Abreast shown r s) : Alike shown r s := by
  refine ⟨abreast.machine, abreast.input, ?_⟩
  rw [abreast.shown, abreast.drained, List.append_nil]

/-- Both machines make the same step. -/
theorem Alike.step (alike : Alike shown r s) :
    s.step.result = r.step.result ∧ Alike shown r.step.rig s.step.rig := by
  obtain ⟨m, input, output, trace⟩ := r
  obtain ⟨m', input', output', trace'⟩ := s
  obtain ⟨rfl, inputs, outputs⟩ := alike
  dsimp only at inputs outputs
  cases demand : m'.demand with
  | nothing =>
    rw [step_of_nothing _ demand, step_of_nothing _ demand]
    exact ⟨rfl, rfl, inputs, outputs⟩
  | word =>
    rw [step_of_word _ demand, step_of_word _ demand]
    cases contents : input.toList with
    | nil =>
      have same := inputs.trans contents
      rw [Tape.take_of_nil contents, Tape.take_of_nil same]
      exact ⟨rfl, rfl, inputs, outputs⟩
    | cons v rest =>
      obtain ⟨left, taken, unread⟩ := Tape.take_of_cons contents
      obtain ⟨left', taken', unread'⟩ := Tape.take_of_cons (inputs.trans contents)
      rw [taken, taken']
      exact ⟨rfl, rfl, unread'.trans unread.symm, outputs⟩
  | room v =>
    rw [step_of_room _ demand, step_of_room _ demand]
    refine ⟨rfl, rfl, inputs, ?_⟩
    calc (output.push v).toList = output.toList ++ [v] := Tape.toList_push output v
      _ = shown ++ (output'.toList ++ [v]) := by rw [outputs, List.append_assoc]
      _ = shown ++ (output'.push v).toList := by rw [Tape.toList_push]

/-- A step that fails has put nothing, unless it runs out of addresses. -/
theorem output_of_fault {f : Fault} (running : r.machine.halted = false)
    (failed : r.step.result = .error (.fault f)) (other : ∀ a, f ≠ .overflow a) :
    r.step.rig.output = r.output := by
  cases demand : r.machine.demand with
  | nothing => rw [step_of_nothing r demand]
  | word =>
    rw [step_of_word r demand]
    obtain ⟨got, input⟩ := Channel.take r.input
    cases got <;> rfl
  | room v =>
    rw [step_of_room r demand] at failed
    cases planned : r.machine.plan with
    | error e => simp [Machine.demand, running, planned] at demand
    | ok p =>
      have committed : (r.machine.commit p 0).1 = .error (.fault f) := by
        rw [← Machine.turn_of_plan running planned]
        exact failed
      rw [Machine.demand_of_plan running planned] at demand
      rcases (Machine.commit_fault committed).2 with ⟨c, d, t, jump⟩ | ⟨overflow, -⟩
      · rw [jump] at demand
        cases demand
      · exact absurd overflow (other _)

end Rig

namespace Shell

open Rig (Abreast Alike)

/-- What a session can show for the step that a run makes from `r`, where `shown` is what it has
shown before, and the session after it. -/
inductive Answers (shown : List Word) (r : Rig Tape Tape) : Reply → Session → Prop
  | goes {a : Nat} {line : Disassembly.Line} {vs : List Word} {s : Session}
      (result : r.step.result = .ok .running) (next : Abreast (shown ++ vs) r.step.rig s.rig) :
      Answers shown r (.print (.stepped a line vs false)) s
  | halts {a : Nat} {line : Disassembly.Line} {vs : List Word} {s : Session}
      (result : r.step.result = .ok .halted) (said : r.step.rig.output.toList = shown ++ vs)
      (machine : s.rig.machine = r.step.rig.machine) (stopped : s.rig.machine.halted = true) :
      Answers shown r (.print (.stepped a line vs true)) s
  | fails {a : Nat} {line : Disassembly.Line} {f : Fault} {s : Session}
      (result : r.step.result = .error (.fault f)) :
      Answers shown r (.print (.stepFailed a line f)) s
  | stops {stop : Stop} {s : Session} (result : r.step.result = .error stop)
      (other : ∀ f, stop ≠ .fault f) : Answers shown r .unfinished s

variable {fuel : Nat} {s : Session} {r : Rig Tape Tape} {shown : List Word}

theorem Answers.note {reply : Reply} (answers : Answers shown r reply s) (line : List Char) :
    Answers shown r reply (s.note line) := by
  cases answers with
  | goes result next => exact .goes result next
  | halts result said machine stopped => exact .halts result said machine stopped
  | fails result => exact .fails result
  | stops result other => exact .stops result other

/-- Replies to steps that go through without a halt, and the values that they show. -/
inductive Going : List Reply → List Word → Prop
  | none : Going [] []
  | step {a : Nat} {line : Disassembly.Line} {vs ws : List Word} {replies : List Reply}
      (rest : Going replies ws) : Going (.print (.stepped a line vs false) :: replies) (vs ++ ws)

namespace Session

/-- Whatever step the run makes, the session shows it and stays abreast. -/
theorem answers_step (abreast : Abreast shown r s.rig) :
    Answers shown r s.step.reply s.step.session := by
  have running : s.rig.machine.halted = false := by rw [abreast.machine, abreast.running]
  have fresh : Alike shown r ⟨s.rig.machine, s.rig.input, s.rig.output, #[]⟩ :=
    ⟨abreast.alike.machine, abreast.alike.input, abreast.alike.output⟩
  obtain ⟨result, after⟩ := fresh.step
  have halting {progress : Progress} (went : r.step.result = .ok progress) :=
    Rig.halted_step abreast.running went
  obtain ⟨program, ⟨machine, input, output, trace⟩, debug, lines⟩ := s
  dsimp only at running result after
  simp only [step, running, Bool.false_eq_true, if_false]
  revert result after
  obtain ⟨got, ⟨machine', input', output', records⟩, traffic⟩ :=
    Rig.step ⟨machine, input, output, #[]⟩
  rintro rfl ⟨rfl, inputs, outputs⟩
  dsimp only at inputs outputs ⊢
  cases went : r.step.result with
  | ok progress =>
    dsimp only [Tape.drain]
    rw [Reply.ofReport_of_worded (.stepped _ _ _ _) trivial]
    cases progress with
    | running =>
      have still : r.step.rig.machine.halted = false := by
        rw [Bool.eq_false_iff, ne_eq, halting went]
        nofun
      rw [still]
      exact .goes went ⟨rfl, still, inputs, outputs, rfl⟩
    | halted =>
      have stopped : r.step.rig.machine.halted = true := (halting went).mpr rfl
      rw [stopped]
      exact .halts went outputs rfl stopped
  | error stop =>
    cases stop with
    | fault f =>
      dsimp only
      rw [Reply.ofReport_of_worded (.stepFailed _ _ _) trivial]
      exact .fails went
    | blocked => exact .stops went nofun
    | crashed => exact .stops went nofun

def steps (n : Nat) : List (List Char) := List.replicate n ".step".toList

theorem steps_succ (n : Nat) (rest : List (List Char)) :
    steps (n + 1) ++ rest = ".step".toList :: (steps n ++ rest) := by
  rw [steps, List.replicate_succ]
  rfl

/-- The reply to one more step. -/
theorem exists_answers (fuel : Nat) (abreast : Abreast shown r s.rig) :
    ∃ reply s', Answers shown r reply s' ∧
      ∀ rest, s.evalAll fuel (".step".toList :: rest) = reply :: s'.evalAll fuel rest := by
  have asks : Asks ".step".toList .step := rfl
  exact ⟨_, _, (answers_step abreast).note _, evalAll_of_asks asks nofun⟩

/-- While the run is not over, steps go through, and show all that it puts out. -/
theorem going_of_unfinished {n : Nat} {t : Rig Tape Tape} (fuel : Nat)
    (abreast : Abreast shown r s.rig) (reached : r.run n = (none, t)) :
    ∃ (replies : List Reply) (ws : List Word) (s' : Session), replies.length = n ∧
      Going replies ws ∧ Abreast (shown ++ ws) t s'.rig ∧ ∀ rest, s.evalAll fuel (steps n ++ rest) =
        replies ++ s'.evalAll fuel rest := by
  induction n generalizing r s shown with
  | zero =>
    cases reached
    refine ⟨[], [], s, rfl, .none, ?_, fun _ => rfl⟩
    rwa [List.append_nil]
  | succ n ih =>
    obtain ⟨reply, s', answers, first⟩ := exists_answers fuel abreast
    rw [Rig.run_succ] at reached
    cases answers with
    | @goes a line vs s' result next =>
      rw [result] at reached
      obtain ⟨replies, ws, s'', length, going, last, later⟩ := ih next reached
      refine ⟨.print (.stepped a line vs false) :: replies, vs ++ ws, s'',
        congrArg (· + 1) length, .step going, ?_, fun rest => ?_⟩
      · rwa [← List.append_assoc]
      · rw [steps_succ, first, later, List.cons_append]
    | halts result _ _ _ | fails result | stops result _ =>
      rw [result] at reached
      cases reached

/-- While steps go through, the run is not over. -/
theorem unfinished_of_going {replies tail : List Reply} {ws : List Word} {rest : List (List Char)}
    (abreast : Abreast shown r s.rig) (going : Going replies ws)
    (replied : s.evalAll fuel (steps replies.length ++ rest) = replies ++ tail) :
    ∃ (t : Rig Tape Tape) (s' : Session), r.run replies.length = (none, t) ∧
      Abreast (shown ++ ws) t s'.rig ∧ s'.evalAll fuel rest = tail := by
  induction going generalizing r s shown with
  | none => exact ⟨r, s, rfl, by rwa [List.append_nil], replied⟩
  | step going ih =>
    obtain ⟨reply, s', answers, first⟩ := exists_answers fuel abreast
    rw [List.length_cons, steps_succ, first, List.cons_append, List.cons.injEq] at replied
    obtain ⟨rfl, replied⟩ := replied
    cases answers with
    | goes result next =>
      obtain ⟨t, s'', reached, last, later⟩ := ih next replied
      refine ⟨t, s'', ?_, ?_, later⟩
      · rw [List.length_cons, Rig.run_succ, result]
        exact reached
      · rwa [← List.append_assoc]

/-- A run that halts: steps go through until one halts. -/
theorem halts_of_run {n : Nat} {t : Rig Tape Tape} {h : HaltState} (fuel : Nat)
    (abreast : Abreast [] r s.rig) (ended : r.run n = (some (.ok h), t)) :
    ∃ (replies : List Reply) (ws : List Word) (a : Nat) (line : Disassembly.Line) (vs : List Word)
      (s' : Session), Going replies ws ∧ ws ++ vs = t.output.toList ∧ s'.rig.machine.ip = h.ip ∧
      s'.rig.machine.halted = true ∧
      ∀ rest, s.evalAll fuel (steps replies.length ++ ".step".toList :: rest) =
        replies ++ .print (.stepped a line vs true) :: s'.evalAll fuel rest := by
  obtain ⟨m, -, u, reached, ending, rfl⟩ := Rig.run_ended ended
  obtain ⟨replies, ws, s', rfl, going, near, first⟩ := going_of_unfinished fuel abreast reached
  obtain ⟨reply, s'', answers, last⟩ := exists_answers fuel near
  cases answers with
  | @halts a line vs s'' result said machine stopped =>
    rw [result] at ending
    obtain rfl : _ = h := Except.ok.inj (Option.some.inj ending)
    refine ⟨replies, ws, a, line, vs, s'', going, said.symm, ?_, stopped, fun rest => ?_⟩
    · rw [machine]
      rfl
    · rw [first, last]
  | goes result _ | fails result | stops result _ =>
    rw [result] at ending
    cases ending

/-- A run that fails, but not for lack of addresses: steps go through until one fails. -/
theorem fails_of_run {n : Nat} {t : Rig Tape Tape} {f : Fault} (fuel : Nat)
    (abreast : Abreast [] r s.rig) (ended : r.run n = (some (.error (.fault f)), t))
    (other : ∀ a, f ≠ .overflow a) :
    ∃ (replies : List Reply) (a : Nat) (line : Disassembly.Line),
      Going replies t.output.toList ∧
      s.evalAll fuel (steps replies.length ++ [".step".toList]) =
        replies ++ [.print (.stepFailed a line f)] := by
  obtain ⟨m, -, u, reached, ending, rfl⟩ := Rig.run_ended ended
  obtain ⟨replies, ws, s', rfl, going, near, first⟩ := going_of_unfinished fuel abreast reached
  obtain ⟨reply, s'', answers, last⟩ := exists_answers fuel near
  cases answers with
  | @fails a line f' s'' result =>
    rw [result] at ending
    obtain rfl : f' = f := Stop.fault.inj (Except.error.inj (Option.some.inj ending))
    refine ⟨replies, a, line, ?_, ?_⟩
    · rw [Rig.output_of_fault near.running result other, near.shown]
      exact going
    · rw [first, last]
      rfl
  | stops result none =>
    rw [result] at ending
    exact absurd (Except.error.inj (Option.some.inj ending)) (none f)
  | goes result _ | halts result _ _ _ =>
    rw [result] at ending
    cases ending

/-- Steps that go through until one halts: the run halts with it. -/
theorem run_of_halts {replies : List Reply} {ws vs : List Word} {a n : Nat}
    {line : Disassembly.Line} (abreast : Abreast [] r s.rig) (going : Going replies ws)
    (replied : s.evalAll fuel (steps replies.length ++ [".step".toList]) =
      replies ++ [.print (.stepped a line vs true)]) (enough : replies.length < n) :
    ∃ h t, r.run n = (some (.ok h), t) ∧ t.output.toList = ws ++ vs := by
  obtain ⟨t, s', reached, near, last⟩ := unfinished_of_going abreast going replied
  obtain ⟨reply, s'', answers, shows⟩ := exists_answers fuel near
  rw [shows] at last
  obtain rfl := (List.cons.inj last).1
  cases answers with
  | halts result said machine stopped =>
    refine ⟨t.step.rig.machine.haltState, t.step.rig, Rig.run_of_ending reached ?_ enough, said⟩
    rw [result]
    rfl

/-- Steps that go through until one fails: the run fails with it. -/
theorem run_of_fails {replies : List Reply} {ws : List Word} {a n : Nat} {line : Disassembly.Line}
    {f : Fault} (abreast : Abreast [] r s.rig) (going : Going replies ws)
    (other : ∀ a, f ≠ .overflow a)
    (replied : s.evalAll fuel (steps replies.length ++ [".step".toList]) =
      replies ++ [.print (.stepFailed a line f)]) (enough : replies.length < n) :
    ∃ t, r.run n = (some (.error (.fault f)), t) ∧ t.output.toList = ws := by
  obtain ⟨t, s', reached, near, last⟩ := unfinished_of_going abreast going replied
  obtain ⟨reply, s'', answers, shows⟩ := exists_answers fuel near
  rw [shows] at last
  obtain rfl := (List.cons.inj last).1
  cases answers with
  | fails result =>
    refine ⟨t.step.rig, Rig.run_of_ending reached ?_ enough, ?_⟩
    · rw [result]
      rfl
    · rw [Rig.output_of_fault near.running result other]
      exact near.shown

/-- A session that has loaded a program and queued values starts abreast of a run of the program on
these values. -/
theorem abreast_of_queued (s : Session) (p : Program) (xs : List Word) (line line' : List Char) :
    Abreast [] (Rig.onTape p "shell" s.debug xs)
      ((((s.load p).note line).enqueue xs).note line').rig := by
  refine ⟨rfl, rfl, ?_, rfl, rfl⟩
  show (Tape.feed {} xs).toList = (Tape.ofList xs).toList
  rw [Tape.toList_feed, Tape.toList_ofList]
  rfl

/-- What is said about a run. -/
theorem reply_run (s : Session) (fuel : Nat) (xs : List Word) :
    (s.run fuel xs).reply = match (Rig.onTape s.program "shell" s.debug xs).run fuel with
      | (some (.ok h), t) => .print (.ran t.output.toList h.ip)
      | (some (.error (.fault f)), t) => .print (.runFailed t.output.toList f)
      | (some (.error .blocked), _) | (some (.error .crashed), _) | (none, _) => .unfinished := by
  rw [Session.run, Rig.runOn_load]
  obtain ⟨result, t⟩ := (Rig.onTape s.program "shell" s.debug xs).run fuel
  cases result with
  | none => rfl
  | some e =>
    cases e with
    | ok h => exact Reply.ofReport_of_worded (.ran _ _) trivial
    | error stop =>
      cases stop with
      | fault f => exact Reply.ofReport_of_worded (.runFailed _ _) trivial
      | blocked | crashed => rfl

theorem run_ran_iff {xs o : List Word} {ip : Word} :
    (s.run fuel xs).reply = .print (.ran o ip) ↔
      ∃ h t, (Rig.onTape s.program "shell" s.debug xs).run fuel = (some (.ok h), t) ∧
        t.output.toList = o ∧ h.ip = ip := by
  rw [reply_run]
  obtain ⟨result, t⟩ := (Rig.onTape s.program "shell" s.debug xs).run fuel
  cases result with
  | none => simp
  | some e =>
    cases e with
    | ok h => simp
    | error stop => cases stop <;> simp

theorem run_failed_iff {xs o : List Word} {f : Fault} :
    (s.run fuel xs).reply = .print (.runFailed o f) ↔
      ∃ t, (Rig.onTape s.program "shell" s.debug xs).run fuel = (some (.error (.fault f)), t) ∧
        t.output.toList = o := by
  rw [reply_run]
  obtain ⟨result, t⟩ := (Rig.onTape s.program "shell" s.debug xs).run fuel
  cases result with
  | none => simp
  | some e =>
    cases e with
    | ok h => simp
    | error stop => cases stop <;> simp [and_comm]

theorem evalAll_registers (stopped : s.rig.machine.halted = true) :
    s.evalAll fuel [".regs".toList] =
      [.print (.registers s.rig.machine.ip s.rig.machine.base true)] := by
  have asks : Asks ".regs".toList .registers := rfl
  rw [evalAll_of_asks asks nofun, execute, stopped]
  dsimp only
  rw [Reply.ofReport_of_worded (.registers _ _ _) trivial, evalAll]

section Lines

variable {listing queueing running : List Char} {p : Program} {xs : List Word}

theorem evalAll_run (s : Session) (fuel : Nat) (loads : Asks listing (.load p))
    (runs : Asks running (.run xs)) : s.evalAll fuel [listing, running] =
      [.print (.loaded p.words.size),
        (((s.load p).note (Text.trim listing)).run fuel xs).reply] := by
  rw [evalAll_of_asks loads nofun, evalAll_of_asks runs nofun]
  exact congrArg (· :: _) (Reply.ofReport_of_worded (.loaded _) trivial)

theorem evalAll_queue (s : Session) (fuel : Nat) (loads : Asks listing (.load p))
    (queues : Asks queueing (.input xs)) (rest : List (List Char)) :
    s.evalAll fuel (listing :: queueing :: rest) =
      .print (.loaded p.words.size) :: .print (.queued xs.length) ::
        ((((s.load p).note (Text.trim listing)).enqueue xs).note (Text.trim queueing)).evalAll fuel
          rest := by
  have count : (((s.load p).note (Text.trim listing)).enqueue xs).rig.input.length = xs.length := by
    have contents := (abreast_of_queued s p xs (Text.trim listing) []).input
    rw [Tape.length, ← Fifo.length_toList]
    exact congrArg List.length (contents.trans (Tape.toList_ofList xs))
  have loaded := Reply.ofReport_of_worded (.loaded p.words.size) trivial
  have queued := Reply.ofReport_of_worded (.queued xs.length) trivial
  rw [← count] at queued ⊢
  rw [evalAll_of_asks loads nofun, evalAll_of_asks queues nofun]
  exact congrArg₂ (· :: · :: _) loaded queued

/-- Stepping and running agree. Any values can be queued and run on. After a listing is loaded and
values are queued, repeated steps show what a run on these values puts out. If the run halts, a step
halts, and the registers are at the same address. If the run fails, a step fails with the same
fault. Conversely, once a step halts or fails, so does every run that is given as many steps. The
one fault left out is the lack of an address: an instruction with none behind it may have put a
value, which no step shows any more. -/
theorem stepping_agrees_with_running (s : Session) (fuel : Nat) (loads : Asks listing (.load p))
    (xs : List Word) :
    (∃ queueing, Asks queueing (.input xs)) ∧ (∃ running, Asks running (.run xs)) ∧
    ∀ queueing running, Asks queueing (.input xs) → Asks running (.run xs) →
    (∀ o ip, s.evalAll fuel [listing, running] =
        [.print (.loaded p.words.size), .print (.ran o ip)] →
      ∃ replies ws a line vs base, Going replies ws ∧ ws ++ vs = o ∧
        s.evalAll fuel
            (listing :: queueing :: (steps replies.length ++ [".step".toList, ".regs".toList])) =
          .print (.loaded p.words.size) :: .print (.queued xs.length) ::
            (replies ++ [.print (.stepped a line vs true), .print (.registers ip base true)])) ∧
    (∀ o f, (∀ a, f ≠ .overflow a) → s.evalAll fuel [listing, running] =
        [.print (.loaded p.words.size), .print (.runFailed o f)] →
      ∃ replies a line, Going replies o ∧
        s.evalAll fuel (listing :: queueing :: (steps replies.length ++ [".step".toList])) =
          .print (.loaded p.words.size) :: .print (.queued xs.length) ::
            (replies ++ [.print (.stepFailed a line f)])) ∧
    (∀ replies ws a line vs, Going replies ws →
        s.evalAll fuel (listing :: queueing :: (steps replies.length ++ [".step".toList])) =
          .print (.loaded p.words.size) :: .print (.queued xs.length) ::
            (replies ++ [.print (.stepped a line vs true)]) →
      ∀ n, replies.length < n → ∃ ip, s.evalAll n [listing, running] =
        [.print (.loaded p.words.size), .print (.ran (ws ++ vs) ip)]) ∧
    ∀ replies ws a line f, (∀ a, f ≠ .overflow a) → Going replies ws →
        s.evalAll fuel (listing :: queueing :: (steps replies.length ++ [".step".toList])) =
          .print (.loaded p.words.size) :: .print (.queued xs.length) ::
            (replies ++ [.print (.stepFailed a line f)]) →
      ∀ n, replies.length < n → s.evalAll n [listing, running] =
        [.print (.loaded p.words.size), .print (.runFailed ws f)] := by
  refine ⟨⟨_, asks_input xs⟩, ⟨_, asks_run xs⟩, fun queueing running queues runs => ?_⟩
  have abreast := abreast_of_queued s p xs (Text.trim listing) (Text.trim queueing)
  have outcome (n : Nat) (reply : Reply) : s.evalAll n [listing, running] =
      [.print (.loaded p.words.size), reply] ↔
        (((s.load p).note (Text.trim listing)).run n xs).reply = reply := by
    rw [evalAll_run s n loads runs, List.cons.injEq, and_iff_right rfl, List.cons.injEq,
      and_iff_left rfl]
  simp only [evalAll_queue s fuel loads queues, outcome, List.cons.injEq, true_and]
  refine ⟨?_, ?_, ?_, ?_⟩
  · intro o ip ran
    obtain ⟨h, t, ended, rfl, rfl⟩ := run_ran_iff.mp ran
    obtain ⟨replies, ws, a, line, vs, s', going, said, place, stopped, shows⟩ :=
      halts_of_run fuel abreast ended
    refine ⟨replies, ws, a, line, vs, s'.rig.machine.base, going, said, ?_⟩
    rw [shows, evalAll_registers stopped, place]
  · intro o f other failed
    obtain ⟨t, ended, rfl⟩ := run_failed_iff.mp failed
    exact fails_of_run fuel abreast ended other
  · intro replies ws a line vs going shown n enough
    obtain ⟨h, t, ended, said⟩ := run_of_halts abreast going shown enough
    exact ⟨h.ip, run_ran_iff.mpr ⟨h, t, ended, said, rfl⟩⟩
  · intro replies ws a line f other going shown n enough
    obtain ⟨t, ended, said⟩ := run_of_fails abreast going other shown enough
    exact run_failed_iff.mpr ⟨t, ended, said⟩

end Lines

/-- A listing that says a seven and stands before a word that is no instruction. -/
def stumbling : List Char := "104,7,98".toList

def echoing : List Char := "3,0,4,0,99".toList

/-- One program that halts after it said what it heard, and one that fails after it said something.
-/
theorem echoing_and_stumbling_agree :
    (Asks echoing (.load ⟨#[3, 0, 4, 0, 99]⟩) ∧ Asks ".in 8".toList (.input [8]) ∧
      Asks ".run 8".toList (.run [8]) ∧
      (∃ replies ws a line vs base, Going replies ws ∧ ws ++ vs = [8] ∧
        (start false).evalAll 9 (echoing :: ".in 8".toList ::
            (steps replies.length ++ [".step".toList, ".regs".toList])) =
          .print (.loaded 5) :: .print (.queued 1) ::
            (replies ++ [.print (.stepped a line vs true), .print (.registers 5 base true)])) ∧
      ∀ n, 2 < n → ∃ ip, (start false).evalAll n [echoing, ".run 8".toList] =
        [.print (.loaded 5), .print (.ran [8] ip)]) ∧
    Asks stumbling (.load ⟨#[104, 7, 98]⟩) ∧ Asks ".in".toList (.input []) ∧
      Asks ".run".toList (.run []) ∧
      (∃ replies a line, Going replies [7] ∧
        (start false).evalAll 9
            (stumbling :: ".in".toList :: (steps replies.length ++ [".step".toList])) =
          .print (.loaded 3) :: .print (.queued 0) ::
            (replies ++ [.print (.stepFailed a line (.unknownOpcode 98 2))])) ∧
      ∀ n, 1 < n → (start false).evalAll n [stumbling, ".run".toList] =
        [.print (.loaded 3), .print (.runFailed [7] (.unknownOpcode 98 2))] := by
  have loads : Asks echoing (.load ⟨#[3, 0, 4, 0, 99]⟩) := rfl
  have queues : Asks ".in 8".toList (.input [8]) := rfl
  have runs : Asks ".run 8".toList (.run [8]) := rfl
  have loads' : Asks stumbling (.load ⟨#[104, 7, 98]⟩) := rfl
  have queues' : Asks ".in".toList (.input []) := rfl
  have runs' : Asks ".run".toList (.run []) := rfl
  obtain ⟨halts, -, halted, -⟩ :=
    (stepping_agrees_with_running (start false) 9 loads [8]).2.2 _ _ queues runs
  obtain ⟨-, fails, -, failed⟩ :=
    (stepping_agrees_with_running (start false) 9 loads' []).2.2 _ _ queues' runs'
  have hears : Going [.print (.stepped 0 (.instruction .input [(.position, 0)]) [] false),
      .print (.stepped 2 (.instruction .output [(.position, 0)]) [8] false)] [8] :=
    .step (.step .none)
  have speaks :
      Going [.print (.stepped 0 (.instruction .output [(.immediate, 7)]) [7] false)] [7] :=
    .step .none
  refine ⟨⟨loads, queues, runs, halts [8] 5 (by rfl), ?_⟩, loads', queues', runs', ?_, ?_⟩
  · exact halted _ [8] 4 (.instruction .halt []) [] hears (by rfl)
  · exact fails [7] (.unknownOpcode 98 2) nofun (by rfl)
  · exact failed _ [7] 2 (.data 98) (.unknownOpcode 98 2) nofun speaks (by rfl)

end Session

end Shell

end Intcode
