import Intcode.Proofs.Machine.Run
import Intcode.Proofs.Machine.Wired

/-!
# Input in pieces

What a machine has not read yet has no part in what it does. So a run on a tape goes the same way
with more values behind, until it lacks one; and if the values are supplied only then, the machine
goes on as if they had been there from the start.
-/

namespace Intcode

namespace Tape

def feed (t : Tape) (ws : List Word) : Tape := ws.foldl push t

@[simp] theorem toList_feed (t : Tape) (ws : List Word) : (t.feed ws).toList = t.toList ++ ws := by
  induction ws generalizing t with
  | nil => exact (List.append_nil _).symm
  | cons w ws ih =>
    show ((t.push w).feed ws).toList = t.toList ++ w :: ws
    rw [ih, toList_push, List.append_assoc, List.singleton_append]

end Tape

namespace Rig

/-- A machine over a program with these values to read and an empty output. -/
def onTape (p : Program) (label : String) (debug : Bool) (ws : List Word) : Rig Tape Tape :=
  ⟨.load p label debug, .ofList ws, {}, #[]⟩

theorem runOn_load (fuel : Nat) (p : Program) (label : String) (debug : Bool) (ws : List Word) :
    (Machine.load p label debug).runOn fuel ws =
      (Failure.ofRun ((onTape p label debug ws).run fuel).1,
        ((onTape p label debug ws).run fuel).2.output.toList,
        ((onTape p label debug ws).run fuel).2.trace) := rfl

def supplied (r : Rig Tape Tape) (ws : List Word) : Rig Tape Tape :=
  { r with input := r.input.feed ws }

/-- The machine is about to take a value, and there is none. -/
def Lacks (r : Rig Tape Tape) : Prop := r.machine.demand = .word ∧ r.input.toList = []

/-- Two rigs that differ only in that the second has `more` values to read behind those of the
first. How a tape keeps its values does not count. -/
structure Ahead (more : List Word) (r r' : Rig Tape Tape) : Prop where
  machine : r'.machine = r.machine
  output : r'.output = r.output
  trace : r'.trace = r.trace
  input : r'.input.toList = r.input.toList ++ more

variable {r r' t : Rig Tape Tape} {more : List Word} {n : Nat}

theorem step_of_lacks (lacks : r.Lacks) : r.step = ⟨.error (.fault .inputExhausted), r, none⟩ := by
  rw [step_of_word r lacks.1, Tape.take_of_nil lacks.2]

/-- Only a machine that lacks a value finds its input exhausted. -/
theorem lacks_of_exhausted (exhausted : r.step.result = .error (.fault .inputExhausted)) :
    r.Lacks := by
  cases demand : r.machine.demand with
  | nothing =>
    rw [step_of_nothing r demand] at exhausted
    exact (Machine.turn_stop _ exhausted).elim
  | room v =>
    rw [step_of_room r demand] at exhausted
    exact (Machine.turn_stop _ exhausted).elim
  | word =>
    cases contents : r.input.toList with
    | nil => exact ⟨demand, contents⟩
    | cons v rest =>
      obtain ⟨input, taken, -⟩ := Tape.take_of_cons contents
      rw [step_of_word r demand, taken] at exhausted
      exact (Machine.turn_stop _ exhausted).elim

theorem Ahead.step (ahead : Ahead more r r') (enough : r.Lacks → more = []) :
    r'.step.result = r.step.result ∧ Ahead more r.step.rig r'.step.rig := by
  obtain ⟨m, input, output, trace⟩ := r
  obtain ⟨m', input', output', trace'⟩ := r'
  obtain ⟨rfl, rfl, rfl, behind⟩ := ahead
  cases demand : m'.demand with
  | nothing =>
    rw [step_of_nothing _ demand, step_of_nothing _ demand]
    exact ⟨rfl, rfl, rfl, rfl, behind⟩
  | room v =>
    rw [step_of_room _ demand, step_of_room _ demand]
    exact ⟨rfl, rfl, rfl, rfl, behind⟩
  | word =>
    cases contents : input.toList with
    | nil =>
      have lacks : Lacks ⟨m', input, output', trace'⟩ := ⟨demand, contents⟩
      have lacks' : Lacks ⟨m', input', output', trace'⟩ := by
        refine ⟨demand, ?_⟩
        rw [behind, enough lacks]
        exact (List.append_nil _).trans contents
      rw [step_of_lacks lacks, step_of_lacks lacks']
      exact ⟨rfl, rfl, rfl, rfl, behind⟩
    | cons v rest =>
      have contents' : input'.toList = v :: (rest ++ more) := by
        rw [behind]
        exact congrArg (· ++ more) contents
      obtain ⟨left, taken, unread⟩ := Tape.take_of_cons contents
      obtain ⟨left', taken', unread'⟩ := Tape.take_of_cons contents'
      rw [step_of_word _ demand, step_of_word _ demand]
      dsimp only
      rw [taken, taken']
      refine ⟨rfl, rfl, rfl, rfl, ?_⟩
      rw [unread', unread]

theorem run_add_of_unfinished (reached : r.run n = (none, t)) (k : Nat) :
    r.run (n + k) = t.run k := by
  rw [run_eq] at reached
  rw [run_eq, run_eq, repeatStep_add, reached]

/-- A run that has come to a step with which it ends is over from then on. -/
theorem run_of_ending {m : Nat} {e : Except Stop HaltState} (reached : r.run n = (none, t))
    (ending : endOf t.step.rig.machine t.step.result = some e) (later : n < m) :
    r.run m = (some e, t.step.rig) := by
  obtain ⟨k, rfl⟩ := Nat.exists_eq_add_of_lt later
  rw [Nat.add_assoc, run_add_of_unfinished reached, run_succ, ending]

theorem endOf_eq_exhausted {m : Machine} {result : Except Stop Progress}
    (exhausted : endOf m result = some (.error (.fault .inputExhausted))) :
    result = .error (.fault .inputExhausted) := by
  cases result with
  | error s =>
    obtain rfl : s = .fault .inputExhausted := Except.error.inj (Option.some.inj exhausted)
    rfl
  | ok progress => cases progress <;> cases exhausted

/-- As long as the first rig lacks nothing, both run alike. -/
theorem Ahead.run (ahead : Ahead more r r')
    (enough : (r.run n).1 = some (.error (.fault .inputExhausted)) → more = []) :
    (r'.run n).1 = (r.run n).1 ∧ Ahead more (r.run n).2 (r'.run n).2 := by
  induction n generalizing r r' with
  | zero => exact ⟨rfl, ahead⟩
  | succ n ih =>
    have first : r.Lacks → more = [] := by
      intro lacks
      apply enough
      rw [run_succ, step_of_lacks lacks]
      rfl
    obtain ⟨results, next⟩ := ahead.step first
    rw [run_succ] at enough
    rw [run_succ, run_succ, results, next.machine]
    revert enough
    cases endOf r.step.rig.machine r.step.result with
    | some e => exact fun _ => ⟨rfl, next⟩
    | none => exact fun enough => ih next enough

/-- A run that is over ended with the last of its steps. -/
theorem run_ended {e : Except Stop HaltState} (finished : r.run n = (some e, t)) :
    ∃ m < n, ∃ u, r.run m = (none, u) ∧ endOf u.step.rig.machine u.step.result = some e ∧
      u.step.rig = t := by
  simp only [run_eq] at finished ⊢
  exact repeatStep_ended finished

/-- A step that finds the input exhausted leaves everything as the steps before it have. -/
theorem reached_of_exhausted (exhausted : r.run n = (some (.error (.fault .inputExhausted)), t)) :
    ∃ m < n, r.run m = (none, t) := by
  obtain ⟨m, below, u, reached, ending, rfl⟩ := run_ended exhausted
  have lacks := lacks_of_exhausted (endOf_eq_exhausted ending)
  refine ⟨m, below, ?_⟩
  rw [step_of_lacks lacks]
  exact reached

/-- A rig that is supplied with more cannot be told from one that had it from the start. -/
theorem Ahead.supply (ahead : Ahead more t r) : Ahead [] (t.supplied more) r := by
  refine ⟨ahead.machine, ahead.output, ahead.trace, ?_⟩
  rw [ahead.input, List.append_nil]
  exact (Tape.toList_feed t.input more).symm

theorem said_run (r : Rig Tape Tape) (n : Nat) :
    r.output.toList <+: (r.run n).2.output.toList := by
  rw [run_eq]
  refine repeatStep_preserves (P := fun s : Rig Tape Tape => r.output.toList <+: s.output.toList)
    ?_ n (List.prefix_refl _)
  intro s said
  exact said.trans (said_step s)

/-- After a run whose input was exhausted, a rig that has more to read goes on as the first one does
once it is supplied with the same. -/
theorem Ahead.resume (ahead : Ahead more r r')
    (exhausted : r.run n = (some (.error (.fault .inputExhausted)), t)) :
    ∃ m < n, ∀ k, (r'.run (m + k)).1 = ((t.supplied more).run k).1 ∧
      Ahead [] ((t.supplied more).run k).2 (r'.run (m + k)).2 := by
  obtain ⟨m, below, reached⟩ := reached_of_exhausted exhausted
  have unfinished : (r.run m).1 = none := by rw [reached]
  obtain ⟨same, there⟩ := ahead.run (n := m) (by rw [unfinished]; nofun)
  rw [reached] at same there
  have reached' : r'.run m = (none, (r'.run m).2) := Prod.ext same rfl
  refine ⟨m, below, fun k => ?_⟩
  rw [run_add_of_unfinished reached']
  exact there.supply.run fun _ => rfl

/-- More input never takes back what was put out. -/
theorem Ahead.said (ahead : Ahead more r r') (n : Nat) :
    (r.run n).2.output.toList <+: (r'.run n).2.output.toList := by
  by_cases enough : (r.run n).1 = some (.error (.fault .inputExhausted))
  · obtain ⟨m, below, resumed⟩ := ahead.resume (Prod.ext enough rfl)
    obtain ⟨k, rfl⟩ := Nat.exists_eq_add_of_lt below
    rw [Nat.add_assoc, (resumed (k + 1)).2.output]
    exact said_run ((r.run (m + k + 1)).2.supplied more) (k + 1)
  · have same := (ahead.run fun exhausted => absurd exhausted enough).2.output
    exact same ▸ List.prefix_rfl

/-- The input of a machine may arrive in pieces. A run that ends on the first piece for another
reason than that it is exhausted, or does not end, goes the same way on both and leaves the second
piece unread. If the first piece is exhausted, the machine goes on after it is supplied with the
second exactly as it does on both from there. Either way, what it puts out on the first piece is the
beginning of what it puts out on both. -/
theorem runs_in_pieces (p : Program) (label : String) (debug : Bool) (xs ys : List Word) :
    (∀ n e t, (onTape p label debug xs).run n = (e, t) →
      e ≠ some (.error (.fault .inputExhausted)) →
      ∃ t', (onTape p label debug (xs ++ ys)).run n = (e, t') ∧ Ahead ys t t') ∧
    (∀ n t, (onTape p label debug xs).run n = (some (.error (.fault .inputExhausted)), t) →
      ∃ m < n, ∀ k,
        ((onTape p label debug (xs ++ ys)).run (m + k)).1 = ((t.supplied ys).run k).1 ∧
        Ahead [] ((t.supplied ys).run k).2 ((onTape p label debug (xs ++ ys)).run (m + k)).2) ∧
    ∀ n, ((onTape p label debug xs).run n).2.output.toList <+:
      ((onTape p label debug (xs ++ ys)).run n).2.output.toList := by
  have start : Ahead ys (onTape p label debug xs) (onTape p label debug (xs ++ ys)) := by
    refine ⟨rfl, rfl, rfl, ?_⟩
    simp only [onTape, Tape.toList_ofList]
  refine ⟨?_, fun n t exhausted => start.resume exhausted, start.said⟩
  intro n e t ended other
  obtain ⟨same, ahead⟩ := start.run (n := n) fun exhausted => by
    rw [ended] at exhausted
    exact absurd exhausted other
  rw [ended] at same ahead
  exact ⟨((onTape p label debug (xs ++ ys)).run n).2, Prod.ext same rfl, ahead⟩

def parrot : Program := ⟨#[3, 20, 4, 20, 1105, 1, 0]⟩

def onceOnly : Program := ⟨#[3, 20, 4, 20, 99]⟩

/-- One run that ends on the first piece and leaves the rest, and one that needs the second. -/
theorem pieces_of_input :
    (∃ s t t', (onTape onceOnly "main" false [5, 6]).run 3 = (some (.ok s), t) ∧
      (onTape onceOnly "main" false ([5, 6] ++ [7])).run 3 = (some (.ok s), t') ∧
      Ahead [7] t t' ∧ t'.input.toList = [6, 7]) ∧
    ∃ t, (onTape parrot "main" false [5]).run 9 =
        (some (.error (.fault .inputExhausted)), t) ∧
      (∃ m < 9, ∀ k,
        ((onTape parrot "main" false ([5] ++ [6, 7])).run (m + k)).1 =
          ((t.supplied [6, 7]).run k).1 ∧
        Ahead [] ((t.supplied [6, 7]).run k).2
          ((onTape parrot "main" false ([5] ++ [6, 7])).run (m + k)).2) ∧
      t.output.toList = [5] ∧ ((t.supplied [6, 7]).run 9).2.output.toList = [5, 6, 7] := by
  obtain ⟨ends, -, -⟩ := runs_in_pieces onceOnly "main" false [5, 6] [7]
  obtain ⟨-, resumes, -⟩ := runs_in_pieces parrot "main" false [5] [6, 7]
  refine ⟨?_, ?_⟩
  · obtain ⟨t', whole, ahead⟩ := ends 3 _ _ rfl nofun
    exact ⟨_, _, t', rfl, whole, ahead, ahead.input⟩
  · exact ⟨_, by rfl, resumes 9 _ (by rfl), by rfl, by rfl⟩

end Rig

end Intcode
