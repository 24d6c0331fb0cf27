import Intcode.Proofs.Shell.Line

/-!
# Transcripts

What a session replies to a line follows from its program and its machine; the lines so far are
looked up by one command only. A line that leaves program and machine as they are can be left out of
a transcript, and a listing makes all replies that follow it independent of the lines before it.
-/

namespace Intcode.Shell

/-- The names of the commands that look at a session, or run its program on a machine of its own. -/
def lookingNames : List String :=
  [".run", ".mem", ".registers", ".regs", ".program", ".prog", ".history"]

/-- A line that leaves program and machine as they are. -/
inductive Idle (raw : List Char) : Prop
  | looks (name : String.ofList (Text.firstField (Text.trim raw)).1 ∈ lookingNames)
  /-- It cannot be read: the command is unknown, or the listing or one of the words is invalid. -/
  | rejected {e : Rejection} (unread : Command.parse (Text.trim raw) = .error e)

def Command.Looks : Command → Prop
  | history | program | registers | run _ | memory _ => True
  | quit | step | input _ | load _ => False

theorem error_or_looks {words : Except Rejection (List Word)} {f : List Word → Command}
    (looks : ∀ ws, (f ws).Looks) :
    (∃ e, words.map f = .error e) ∨ ∃ c, words.map f = .ok c ∧ c.Looks := by
  cases words with
  | error e => exact .inl ⟨e, rfl⟩
  | ok ws => exact .inr ⟨f ws, rfl, looks ws⟩

theorem Idle.parse {raw : List Char} (idle : Idle raw) :
    (∃ e, Command.parse (Text.trim raw) = .error e) ∨
      ∃ c, Command.parse (Text.trim raw) = .ok c ∧ c.Looks := by
  cases idle with
  | rejected unread => exact .inl ⟨_, unread⟩
  | looks name =>
    simp only [lookingNames, List.mem_cons, List.not_mem_nil, or_false] at name
    rw [Command.parse]
    rcases name with name | name | name | name | name | name | name <;> simp only [name]
    · exact error_or_looks fun _ => trivial
    · exact error_or_looks fun _ => trivial
    · exact .inr ⟨.registers, rfl, trivial⟩
    · exact .inr ⟨.registers, rfl, trivial⟩
    · exact .inr ⟨.program, rfl, trivial⟩
    · exact .inr ⟨.program, rfl, trivial⟩
    · exact .inr ⟨.history, rfl, trivial⟩

namespace Session

variable {fuel : Nat} {s s' : Session} {raw : List Char} {c : Command}

theorem session_of_looks (looks : c.Looks) : (s.execute fuel c).session = s := by
  cases c with
  | history | program | registers | run | memory => rfl
  | quit | step | input | load => cases looks

/-- Two sessions that are the same but for the lines so far. -/
structure SameState (s s' : Session) : Prop where
  program : s'.program = s.program
  rig : s'.rig = s.rig
  debug : s'.debug = s.debug

theorem SameState.refl (s : Session) : SameState s s := ⟨rfl, rfl, rfl⟩

theorem SameState.symm (state : SameState s s') : SameState s' s :=
  ⟨state.program.symm, state.rig.symm, state.debug.symm⟩

theorem SameState.note (state : SameState s s') (line line' : List Char) :
    SameState (s.note line) (s'.note line') :=
  ⟨state.program, state.rig, state.debug⟩

theorem SameState.step (state : SameState s s') :
    s'.step.reply = s.step.reply ∧ SameState s.step.session s'.step.session := by
  obtain ⟨program, ⟨machine, input, output, trace⟩, debug, lines⟩ := s
  obtain ⟨program', rig', debug', lines'⟩ := s'
  obtain ⟨programs, rigs, debugs⟩ := state
  dsimp only at programs rigs debugs
  subst programs rigs debugs
  simp only [Session.step]
  split
  · exact ⟨rfl, rfl, rfl, rfl⟩
  · split <;> exact ⟨rfl, rfl, rfl, rfl⟩

/-- The lines so far matter to no command but the one that asks for them. -/
theorem SameState.execute (fuel : Nat) (state : SameState s s') (c : Command) :
    (c ≠ .history → (s'.execute fuel c).reply = (s.execute fuel c).reply) ∧
      SameState (s.execute fuel c).session (s'.execute fuel c).session := by
  obtain ⟨program, rig, debug, lines⟩ := s
  obtain ⟨program', rig', debug', lines'⟩ := s'
  have same := state
  obtain ⟨rfl, rfl, rfl⟩ := state
  cases c with
  | history => exact ⟨fun other => absurd rfl other, same⟩
  | step => exact ⟨fun _ => same.step.1, same.step.2⟩
  | quit | program | registers | run | input | memory | load =>
    exact ⟨fun _ => rfl, ⟨rfl, rfl, rfl⟩⟩

theorem SameState.eval (fuel : Nat) (state : SameState s s') (raw : List Char) :
    (¬Asks raw .history → (s'.eval fuel raw).reply = (s.eval fuel raw).reply) ∧
      SameState (s.eval fuel raw).session (s'.eval fuel raw).session := by
  rw [Session.eval, Session.eval]
  split
  · exact ⟨fun _ => rfl, state⟩
  · split
    · exact ⟨fun _ => rfl, state.note _ _⟩
    · exact ⟨fun _ => rfl, state⟩
    · rename_i c stays parsed
      obtain ⟨reply, after⟩ := state.execute fuel c
      refine ⟨fun other => reply ?_, after.note _ _⟩
      rintro rfl
      exact other parsed

theorem sameState_eval_of_idle (fuel : Nat) (s : Session) (idle : Idle raw) :
    SameState s (s.eval fuel raw).session := by
  rcases idle.parse with ⟨e, unread⟩ | ⟨c, asks, looks⟩
  · rw [Session.eval, unread]
    split
    · exact .refl s
    · exact ⟨rfl, rfl, rfl⟩
  · have stays : c ≠ .quit := by
      rintro rfl
      cases looks
    rw [(eval_of_asks asks stays).2, session_of_looks looks]
    exact ⟨rfl, rfl, rfl⟩

/-- Loading makes sessions the same whose machines are traced alike. -/
theorem SameState.load (traced : s'.debug = s.debug) (p : Program) :
    SameState (s.load p) (s'.load p) := by
  refine ⟨rfl, ?_, traced⟩
  rw [Session.load, Session.load, traced]

def after (fuel : Nat) (s : Session) (lines : List (List Char)) : Session :=
  lines.foldl (fun s raw => (s.eval fuel raw).session) s

theorem length_evalAll (fuel : Nat) (s : Session) (lines : List (List Char)) :
    (s.evalAll fuel lines).length = lines.length := by
  induction lines generalizing s with
  | nil => rfl
  | cons raw lines ih => rw [evalAll, List.length_cons, ih, List.length_cons]

theorem evalAll_append (fuel : Nat) (s : Session) (lines rest : List (List Char)) :
    s.evalAll fuel (lines ++ rest) =
      s.evalAll fuel lines ++ (s.after fuel lines).evalAll fuel rest := by
  induction lines generalizing s with
  | nil => rfl
  | cons raw lines ih =>
    rw [List.cons_append, evalAll, evalAll, ih]
    rfl

theorem debug_execute (fuel : Nat) (s : Session) (c : Command) :
    (s.execute fuel c).session.debug = s.debug := by
  cases c with
  | step =>
    obtain ⟨program, ⟨machine, input, output, trace⟩, debug, lines⟩ := s
    simp only [execute, Session.step]
    split
    · rfl
    · split <;> rfl
  | quit | history | program | registers | run | input | memory | load => rfl

theorem debug_eval (fuel : Nat) (s : Session) (raw : List Char) :
    (s.eval fuel raw).session.debug = s.debug := by
  rw [Session.eval]
  split
  · rfl
  · split
    · rfl
    · rfl
    · rename_i c stays parsed
      exact debug_execute fuel s c

theorem debug_after (fuel : Nat) (s : Session) (lines : List (List Char)) :
    (s.after fuel lines).debug = s.debug := by
  induction lines generalizing s with
  | nil => rfl
  | cons raw lines ih => exact (ih _).trans (debug_eval fuel s raw)

/-- Replies to the same lines that differ at most where a line asks for the lines so far. -/
inductive Agree : List (List Char) → List Reply → List Reply → Prop
  | none : Agree [] [] []
  | same {raw : List Char} {lines : List (List Char)} {replies replies' : List Reply}
      (reply : Reply) (rest : Agree lines replies replies') :
      Agree (raw :: lines) (reply :: replies) (reply :: replies')
  | history {raw : List Char} {lines : List (List Char)} {replies replies' : List Reply}
      (asks : Asks raw .history) (reply reply' : Reply) (rest : Agree lines replies replies') :
      Agree (raw :: lines) (reply :: replies) (reply' :: replies')

/-- Even where the replies differ, the sessions go on with the same program and machine. -/
theorem SameState.agree (fuel : Nat) (state : SameState s s') (lines : List (List Char)) :
    Agree lines (s.evalAll fuel lines) (s'.evalAll fuel lines) := by
  induction lines generalizing s s' with
  | nil => exact .none
  | cons raw lines ih =>
    obtain ⟨reply, next⟩ := state.eval fuel raw
    rw [evalAll, evalAll]
    by_cases asks : Asks raw .history
    · exact .history asks _ _ (ih next)
    · rw [reply asks]
      exact .same _ (ih next)

/-- The lines of a session do not interfere. A line that only looks, runs the program elsewhere or
cannot be read can be left out: what was replied before it stays the same, and what is replied after
it too, except where a line asks for the lines so far. And once a listing is loaded, what is replied
from then on, with the same exception, does not depend on the session in which it was loaded nor on
the lines before it, as long as the machines are traced alike. -/
theorem lines_do_not_interfere (fuel : Nat) :
    (∀ (s : Session) before raw rest, Idle raw → ∃ told reply replies replies',
      s.evalAll fuel (before ++ raw :: rest) = told ++ reply :: replies ∧
      s.evalAll fuel (before ++ rest) = told ++ replies' ∧
      told.length = before.length ∧ Agree rest replies replies') ∧
    ∀ (s s' : Session) before before' listing p rest, s'.debug = s.debug →
      Asks listing (.load p) → ∃ told told' replies replies',
      s.evalAll fuel (before ++ listing :: rest) =
        told ++ .print (.loaded p.words.size) :: replies ∧
      s'.evalAll fuel (before' ++ listing :: rest) =
        told' ++ .print (.loaded p.words.size) :: replies' ∧
      told.length = before.length ∧ told'.length = before'.length ∧
      Agree rest replies replies' := by
  constructor
  · intro s before raw rest idle
    have state := sameState_eval_of_idle fuel (s.after fuel before) idle
    exact ⟨_, _, _, _, s.evalAll_append fuel before (raw :: rest),
      s.evalAll_append fuel before rest, s.length_evalAll fuel before, state.symm.agree fuel rest⟩
  · intro s s' before before' listing p rest traced loads
    have loaded := Reply.ofReport_of_worded (.loaded p.words.size) trivial
    have answer (t : Session) : t.evalAll fuel (listing :: rest) =
        .print (.loaded p.words.size) ::
          ((t.load p).note (Text.trim listing)).evalAll fuel rest := by
      rw [evalAll_of_asks loads nofun]
      exact congrArg (· :: _) loaded
    have traced' : (s'.after fuel before').debug = (s.after fuel before).debug := by
      rw [debug_after, debug_after, traced]
    have state := (SameState.load traced' p).note (Text.trim listing) (Text.trim listing)
    refine ⟨_, _, _, _, ?_, ?_, s.length_evalAll fuel before, s'.length_evalAll fuel before',
      state.agree fuel rest⟩
    · rw [evalAll_append, answer]
    · rw [evalAll_append, answer]

/-- A line that queues nothing because of its second word, between two that queue and step. -/
def mistyped : List Char := ".in 1,x".toList

def saying : List Char := "104,7,99".toList

theorem sample_lines_do_not_interfere :
    let before := ["3,0,99".toList, ".in 4".toList]
    let rest := [".step".toList, ".history".toList, ".regs".toList]
    (Idle mistyped ∧ ∃ told reply replies replies',
      (start false).evalAll 9 (before ++ mistyped :: rest) = told ++ reply :: replies ∧
      (start false).evalAll 9 (before ++ rest) = told ++ replies' ∧
      told.length = 2 ∧ Agree rest replies replies') ∧
    (start false).debug = ((start false).enqueue [5]).debug ∧
    Asks saying (.load ⟨#[104, 7, 99]⟩) ∧ ∃ told told' replies replies',
      ((start false).enqueue [5]).evalAll 9 (before ++ saying :: rest) =
        told ++ .print (.loaded 3) :: replies ∧
      (start false).evalAll 9 ([".step".toList] ++ saying :: rest) =
        told' ++ .print (.loaded 3) :: replies' ∧
      told.length = 2 ∧ told'.length = 1 ∧ Agree rest replies replies' := by
  intro before rest
  have idle : Idle mistyped := .rejected (e := .invalidValue ['x'] .badDigit) rfl
  have loads : Asks saying (.load ⟨#[104, 7, 99]⟩) := rfl
  obtain ⟨left, loaded⟩ := lines_do_not_interfere 9
  exact ⟨⟨idle, left _ before _ rest idle⟩, rfl, loads,
    loaded ((start false).enqueue [5]) (start false) before [".step".toList] _ _ rest rfl loads⟩

end Session

end Intcode.Shell
