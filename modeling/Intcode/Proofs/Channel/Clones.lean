import Intcode.Proofs.Channel.Contents

/-!
# Clones of a channel

The clones of a wire, or of a tape, share one queue and are used by different units. A call on one
of them need not be over at once: a take may have to wait, a poll of a tape looks twice, and a drain
of a wire takes one value at a time. In between, the other clones act. Whatever the order of their
acts, every answer is the one that a plain list would give, and nothing is lost, doubled or
overtaken.
-/

namespace Intcode

namespace Clones

inductive Call where
  | put (v : Word)
  | push (v : Word)
  | take
  | poll
  | drain
  | len
  | pending
  | close
  deriving DecidableEq, Repr

/-- A call that has begun and has not returned. -/
inductive Underway where
  | taking
  | polling
  | draining (got : List Word)
  deriving DecidableEq, Repr

/-- What an act of a clone comes to. -/
inductive Act where
  | put (v : Word) (answer : Except Stop Unit)
  | push (v : Word) (warnings : List Warning)
  /-- A take returns or, if it is blocked, goes on waiting. -/
  | take (answer : Except Stop Word)
  | poll (answer : Except Stop (Option Word))
  /-- A poll has found nothing so far. -/
  | linger
  /-- A drain gets one more value. -/
  | draw (v : Word)
  /-- A drain gets its last values and returns all that it got. -/
  | drain (last all : List Word)
  | len (n : Nat)
  | pending (n : Nat)
  | close

namespace Act

/-- The values that an act adds to the queue, by its answer. -/
@[simp] def accepted : Act → List Word
  | put v (.ok ()) => [v]
  | push v [] => [v]
  | put _ (.error _) | push _ (_ :: _) | take _ | poll _ | linger | draw _ | drain .. | len _
  | pending _ | close => []

@[simp] def delivered : Act → List Word
  | take (.ok v) | poll (.ok (some v)) | draw v => [v]
  | drain last _ => last
  | put .. | push .. | take (.error _) | poll (.error _) | poll (.ok none) | linger | len _
  | pending _ | close => []

@[simp] def closes : Act → Bool
  | close => true
  | put .. | push .. | take _ | poll _ | linger | draw _ | drain .. | len _ | pending _ => false

/-- What a drain has got after an act, if it had got the given values before. -/
@[simp] def drawnAfter (got : List Word) : Act → List Word
  | draw v => got ++ [v]
  | drain .. => []
  | put .. | push .. | take _ | poll _ | linger | len _ | pending _ | close => got

end Act

/-- The acts of the clones in order, each with the clone that made it. -/
abbrev History := List (Nat × Act)

namespace History

def accepted (log : History) : List Word := log.flatMap fun e => e.2.accepted

def delivered (log : History) : List Word := log.flatMap fun e => e.2.delivered

def closed (log : History) : Bool := log.any fun e => e.2.closes

def drawn (log : History) (clone : Nat) : List Word :=
  log.foldl (fun got e => if e.1 = clone then e.2.drawnAfter got else got) []

/-- What has been accepted and not delivered, if some values were there from the start. -/
def queued (log : History) (given : List Word) : List Word :=
  (given ++ log.accepted).drop log.delivered.length

end History

structure Rules where
  /-- Whether closing it makes a difference. -/
  closable : Bool
  /-- Why nothing can be taken while it is empty and not closed. -/
  lacking : Stop

/-- The answer of an act on a queue that holds `queue`, and is `shut` or not. A drain that the act
belongs to has got `got` so far. -/
@[simp] def Act.Fits (rules : Rules) (queue : List Word) (shut : Bool) (got : List Word) :
    Act → Prop
  | put _ answer => answer = if shut then .error (.fault .notConnected) else .ok ()
  | push v warnings => warnings = if shut then [.droppedValue v] else []
  | take answer => answer = match queue with
    | v :: _ => .ok v
    | [] => .error (if shut then .fault .notConnected else rules.lacking)
  | poll answer => answer = match queue with
    | v :: _ => .ok (some v)
    | [] => if shut then .error (.fault .notConnected) else .ok none
  | linger => queue = []
  | draw v => queue.head? = some v
  | drain last all => last = queue ∧ all = got ++ last
  | len n | pending n => n = queue.length
  | close => True

/-- A history of an exact queue: it started with `given` and now holds `left`. -/
structure Exact (rules : Rules) (given : List Word) (log : History) (left : List Word) : Prop where
  /-- What was delivered, and then what is queued, is what was accepted, in the same order. -/
  conserved : log.delivered ++ left = given ++ log.accepted
  /-- Every act is answered by what had been accepted, delivered and closed before it. -/
  answered : ∀ (before : History) clone act after, log = before ++ (clone, act) :: after →
    act.Fits rules (before.queued given) (rules.closable && before.closed) (before.drawn clone)

inductive Round (σ : Type) where
  /-- It gets a value and goes on. -/
  | more (v : Word) (rest : σ)
  /-- It gets what is left to it and is over. -/
  | last (vs : List Word) (rest : σ)

class Cloneable (σ : Type) where
  push : σ → Word → List Warning × σ
  len : σ → Nat
  round : σ → Round σ
  /-- Whether a poll that finds nothing looks again at the end of its wait. -/
  looksTwice : Bool

instance : Cloneable Wire where
  push := Wire.push
  len := Wire.length
  round w :=
    match Channel.poll w with
    | (.ok (some v), w) => .more v w
    | (.ok none, w) | (.error _, w) => .last [] w
  looksTwice := false

instance : Cloneable Tape where
  push t v := ([], t.push v)
  len := Tape.length
  round t := .last t.drain.1 t.drain.2
  looksTwice := true

end Clones

structure Clones (σ : Type) where
  /-- The channel that they share. -/
  shared : σ
  underway : Nat → Option Clones.Underway := fun _ => none
  log : Clones.History := []

namespace Clones

variable {σ : Type} [Channel σ] [Cloneable σ]

def take (q : σ) : Act × σ × Option Underway :=
  match Channel.take q with
  | (.error .blocked, q) => (.take (.error .blocked), q, some .taking)
  | (.error (.fault f), q) => (.take (.error (.fault f)), q, none)
  | (.error .crashed, q) => (.take (.error .crashed), q, none)
  | (.ok v, q) => (.take (.ok v), q, none)

def drain (got : List Word) (q : σ) : Act × σ × Option Underway :=
  match Cloneable.round q with
  | .more v q => (.draw v, q, some (.draining (got ++ [v])))
  | .last vs q => (.drain vs (got ++ vs), q, none)

def look (q : σ) : Act × σ × Option Underway :=
  match Channel.poll q with
  | (.ok none, q) =>
    if Cloneable.looksTwice σ then (.linger, q, some .polling) else (.poll (.ok none), q, none)
  | (.ok (some v), q) => (.poll (.ok (some v)), q, none)
  | (.error s, q) => (.poll (.error s), q, none)

def begin (q : σ) : Call → Act × σ × Option Underway
  | .put v => (.put v (Channel.put q v).1, (Channel.put q v).2, none)
  | .push v => (.push v (Cloneable.push q v).1, (Cloneable.push q v).2, none)
  | .take => take q
  | .poll => look q
  | .drain => drain [] q
  | .len => (.len (Cloneable.len q), q, none)
  | .pending => (.pending (Channel.pending q), q, none)
  | .close => (.close, Channel.close q, none)

def proceed (q : σ) : Underway → Act × σ × Option Underway
  | .taking => take q
  | .polling => (.poll (Channel.poll q).1, (Channel.poll q).2, none)
  | .draining got => drain got q

/-- An act of a clone: it goes on with the call that it is in the middle of, or begins one. -/
def next (c : Clones σ) (clone : Nat) (call : Call) : Clones σ :=
  let done := match c.underway clone with
    | some u => proceed c.shared u
    | none => begin c.shared call
  { shared := done.2.1
    underway := fun other => if other = clone then done.2.2 else c.underway other
    log := c.log ++ [(clone, done.1)] }

def run (q : σ) (acts : List (Nat × Call)) : Clones σ :=
  acts.foldl (fun c a => c.next a.1 a.2) { shared := q }

@[simp] def Underway.got : Option Underway → List Word
  | some (.draining got) => got
  | some .taking | some .polling | none => []

/-- What came of an act fits the queue as it was, and the queue has changed accordingly. A queue is
seen as the list of its contents and as being shut or not. -/
structure Done (rules : Rules) (contents : σ → List Word) (shut : σ → Bool) (q : σ)
    (got : List Word) (done : Act × σ × Option Underway) : Prop where
  fits : done.1.Fits rules (contents q) (shut q) got
  moved : done.1.delivered ++ contents done.2.1 = contents q ++ done.1.accepted
  shut : shut done.2.1 = (shut q || rules.closable && done.1.closes)
  drawn : Underway.got done.2.2 = done.1.drawnAfter got

/-- A kind of channel obeys the rules, whatever call begins or goes on. -/
structure Governed (rules : Rules) (contents : σ → List Word) (shut : σ → Bool) : Prop where
  begin : ∀ q call, Done rules contents shut q [] (begin q call)
  proceed : ∀ q u, Done rules contents shut q (Underway.got (some u)) (proceed q u)

/-- A wire can be closed, and who finds it open and empty has to wait. -/
def wireRules : Rules := { closable := true, lacking := .blocked }

/-- A tape cannot be closed, and nobody waits at an empty one. -/
def tapeRules : Rules := { closable := false, lacking := .fault .inputExhausted }

/-- Where a poll looks only once, its first look is its last. -/
theorem look_of_once (once : Cloneable.looksTwice σ = false) (q : σ) :
    look q = (.poll (Channel.poll q).1, (Channel.poll q).2, none) := by
  rw [look]
  split
  · rename_i polled
    simp only [once, Bool.false_eq_true, if_false, polled]
  · rename_i polled
    rw [polled]
  · rename_i polled
    rw [polled]

section Wire

variable (w : Wire)

theorem wire_put (v : Word) : Done wireRules Wire.toList Wire.closed w [] (begin w (.put v)) := by
  cases closed : w.closed with
  | true =>
    have refused := Wire.put_of_closed closed v
    constructor <;> simp [begin, refused, closed, wireRules]
  | false =>
    obtain ⟨w', given, appended, stays⟩ := Wire.put_of_open closed v
    constructor <;> simp [begin, given, appended, stays, closed, wireRules]

theorem wire_push (v : Word) : Done wireRules Wire.toList Wire.closed w [] (begin w (.push v)) := by
  cases closed : w.closed with
  | true =>
    have refused : Cloneable.push w v = ([.droppedValue v], w) := by
      have put : w.put v = _ := Wire.put_of_closed closed v
      simp only [Cloneable.push, Wire.push, put]
    constructor <;> simp [begin, refused, closed, wireRules]
  | false =>
    obtain ⟨w', given, appended, stays⟩ := Wire.put_of_open closed v
    have pushed : Cloneable.push w v = ([], w') := by
      have put : w.put v = _ := given
      simp only [Cloneable.push, Wire.push, put]
    constructor <;> simp [begin, pushed, appended, stays, closed, wireRules]

theorem wire_take : Done wireRules Wire.toList Wire.closed w [] (take w) := by
  cases contents : w.toList with
  | nil =>
    have nothing := Wire.take_of_nil contents
    cases closed : w.closed <;> simp only [closed] at nothing <;>
      constructor <;> simp [take, nothing, closed, contents, wireRules]
  | cons v rest =>
    obtain ⟨w', taken, left, same⟩ := Wire.take_of_cons contents
    constructor <;> simp [take, taken, left, same, contents, wireRules]

theorem wire_poll : Done wireRules Wire.toList Wire.closed w []
    (.poll (Channel.poll w).1, (Channel.poll w).2, none) := by
  cases contents : w.toList with
  | nil =>
    have nothing := Wire.poll_of_nil contents
    cases closed : w.closed <;> simp only [closed] at nothing <;>
      constructor <;> simp [nothing, closed, contents, wireRules]
  | cons v rest =>
    obtain ⟨w', polled, left, same⟩ := Wire.poll_of_cons contents
    constructor <;> simp [polled, left, same, contents, wireRules]

variable {w} in
theorem round_of_nil (contents : w.toList = []) : Cloneable.round w = .last [] w := by
  have nothing := Wire.poll_of_nil contents
  cases closed : w.closed <;> simp only [closed] at nothing <;> simp [Cloneable.round, nothing]

variable {w} in
theorem round_of_cons {v : Word} {rest : List Word} (contents : w.toList = v :: rest) :
    ∃ w' : Wire, Cloneable.round w = .more v w' ∧ w'.toList = rest ∧ w'.closed = w.closed := by
  obtain ⟨w', polled, left, same⟩ := Wire.poll_of_cons contents
  exact ⟨w', by simp only [Cloneable.round, polled], left, same⟩

theorem wire_drain (got : List Word) :
    Done wireRules Wire.toList Wire.closed w got (drain got w) := by
  cases contents : w.toList with
  | nil =>
    have finished := round_of_nil contents
    constructor <;> simp [drain, finished, contents, wireRules]
  | cons v rest =>
    obtain ⟨w', more, left, same⟩ := round_of_cons contents
    constructor <;> simp [drain, more, left, same, contents, wireRules]

end Wire

theorem wire_governed : Governed wireRules Wire.toList Wire.closed where
  begin w call := by
    cases call with
    | put v => exact wire_put w v
    | push v => exact wire_push w v
    | take => exact wire_take w
    | poll =>
      rw [begin, look_of_once rfl]
      exact wire_poll w
    | drain => exact wire_drain w []
    | len =>
      have length : Cloneable.len w = w.toList.length := (Fifo.length_toList w.queue).symm
      constructor <;> simp [begin, length, wireRules]
    | pending => constructor <;> simp [begin, Wire.pending_eq, wireRules]
    | close => constructor <;> simp [begin, Channel.close, Wire.close, Wire.toList, wireRules]
  proceed w u := by
    cases u with
    | taking => exact wire_take w
    | polling => exact wire_poll w
    | draining got => exact wire_drain w got

theorem tape_take (t : Tape) : Done tapeRules Tape.toList (fun _ => false) t [] (take t) := by
  cases contents : t.toList with
  | nil =>
    have nothing := Tape.take_of_nil contents
    constructor <;> simp [take, nothing, contents, tapeRules]
  | cons v rest =>
    obtain ⟨t', taken, left⟩ := Tape.take_of_cons contents
    constructor <;> simp [take, taken, left, contents, tapeRules]

theorem tape_look (t : Tape) : Done tapeRules Tape.toList (fun _ => false) t [] (look t) := by
  have twice : Cloneable.looksTwice Tape = true := rfl
  cases contents : t.toList with
  | nil =>
    have nothing := Tape.poll_of_nil contents
    constructor <;> simp [look, nothing, twice, contents, tapeRules]
  | cons v rest =>
    obtain ⟨t', polled, left⟩ := Tape.poll_of_cons contents
    constructor <;> simp [look, polled, left, contents, tapeRules]

theorem tape_poll (t : Tape) : Done tapeRules Tape.toList (fun _ => false) t []
    (.poll (Channel.poll t).1, (Channel.poll t).2, none) := by
  cases contents : t.toList with
  | nil =>
    have nothing := Tape.poll_of_nil contents
    constructor <;> simp [nothing, contents, tapeRules]
  | cons v rest =>
    obtain ⟨t', polled, left⟩ := Tape.poll_of_cons contents
    constructor <;> simp [polled, left, contents, tapeRules]

theorem tape_drain (t : Tape) (got : List Word) :
    Done tapeRules Tape.toList (fun _ => false) t got (drain got t) := by
  have emptied : Tape.toList {} = [] := rfl
  constructor <;> simp [drain, Cloneable.round, Tape.drain, emptied, tapeRules]

theorem tape_governed : Governed tapeRules Tape.toList fun _ => false where
  begin t call := by
    have length : t.length = t.toList.length := (Fifo.length_toList t.queue).symm
    cases call with
    | put v => constructor <;> simp [begin, Channel.put, tapeRules]
    | push v => constructor <;> simp [begin, Cloneable.push, tapeRules]
    | take => exact tape_take t
    | poll => exact tape_look t
    | drain => exact tape_drain t []
    | len => constructor <;> simp [begin, Cloneable.len, length, tapeRules]
    | pending => constructor <;> simp [begin, Channel.pending, length, tapeRules]
    | close => constructor <;> simp [begin, Channel.close, tapeRules]
  proceed t u := by
    cases u with
    | taking => exact tape_take t
    | polling => exact tape_poll t
    | draining got => exact tape_drain t got

section Acts

variable {rules : Rules} {contents : σ → List Word} {shut : σ → Bool} {given : List Word}

structure Sound (rules : Rules) (contents : σ → List Word) (shut : σ → Bool) (given : List Word)
    (c : Clones σ) : Prop where
  exact : Exact rules given c.log (contents c.shared)
  shut : shut c.shared = (rules.closable && c.log.closed)
  drawn : ∀ clone, Underway.got (c.underway clone) = c.log.drawn clone

theorem Exact.queued_eq {log : History} {left : List Word} (exact : Exact rules given log left) :
    log.queued given = left := by
  rw [History.queued, ← exact.conserved, List.drop_left]

/-- An act that fits the queue makes its history longer by one. -/
theorem Exact.snoc {log : History} {left rest : List Word} {clone : Nat} {act : Act}
    (exact : Exact rules given log left)
    (fits : act.Fits rules left (rules.closable && log.closed) (log.drawn clone))
    (moved : act.delivered ++ rest = left ++ act.accepted) :
    Exact rules given (log ++ [(clone, act)]) rest := by
  constructor
  · calc History.delivered (log ++ [(clone, act)]) ++ rest
        = log.delivered ++ (act.delivered ++ rest) := by simp [History.delivered]
      _ = (log.delivered ++ left) ++ act.accepted := by rw [moved, List.append_assoc]
      _ = given ++ History.accepted (log ++ [(clone, act)]) := by
          simp [exact.conserved, History.accepted]
  · intro before other deed after split
    rcases List.eq_nil_or_concat after with rfl | ⟨most, e, rfl⟩
    · obtain ⟨rfl, last⟩ := List.append_inj' split rfl
      cases last
      rw [exact.queued_eq]
      exact fits
    · have longer : log ++ [(clone, act)] = (before ++ (other, deed) :: most) ++ [e] := by
        rw [split, List.concat_eq_append, List.append_assoc, List.cons_append]
      exact exact.answered before other deed most (List.append_inj' longer rfl).1

theorem Sound.next {c : Clones σ} (sound : Sound rules contents shut given c)
    (governed : Governed rules contents shut) (clone : Nat) (call : Call) :
    Sound rules contents shut given (c.next clone call) := by
  obtain ⟨exact, sealed, drawn⟩ := sound
  have done : Done rules contents shut c.shared (c.log.drawn clone)
      (match c.underway clone with
        | some u => proceed c.shared u
        | none => begin c.shared call) := by
    rw [← drawn clone]
    cases c.underway clone with
    | none => exact governed.begin c.shared call
    | some u => exact governed.proceed c.shared u
  rw [Clones.next]
  generalize (match c.underway clone with
    | some u => proceed c.shared u
    | none => begin c.shared call) = outcome at done
  obtain ⟨act, q, underway⟩ := outcome
  obtain ⟨fits, moved, shuts, got⟩ := done
  constructor
  · rw [sealed] at fits
    exact exact.snoc fits moved
  · show shut q = _
    rw [shuts, sealed, ← Bool.and_or_distrib_left]
    simp [History.closed]
  · intro other
    simp only [History.drawn, List.foldl_append, List.foldl_cons, List.foldl_nil]
    by_cases same : other = clone
    · subst same
      simp only [if_true]
      exact got
    · simp only [if_neg same, if_neg (Ne.symm same)]
      exact drawn other

theorem sound_run (governed : Governed rules contents shut) {q : σ} (isOpen : shut q = false)
    (acts : List (Nat × Call)) : Sound rules contents shut (contents q) (run q acts) := by
  have start : Sound rules contents shut (contents q) ({ shared := q } : Clones σ) := by
    refine ⟨⟨?_, ?_⟩, ?_, ?_⟩
    · simp [History.delivered, History.accepted]
    · intro before clone act after split
      simp at split
    · simp [History.closed, isOpen]
    · intro clone
      rfl
  rw [run]
  generalize ({ shared := q } : Clones σ) = c at start
  induction acts generalizing c with
  | nil => exact start
  | cons act acts ih => exact ih _ (start.next governed act.1 act.2)

end Acts

/-- A clone has just returned from a call, and has left the channel as given. -/
structure Returned (c : Clones σ) (clone : Nat) (act : Act) (q : σ) : Prop where
  free : c.underway clone = none
  last : c.log.getLast? = some (clone, act)
  shared : c.shared = q

/-- A clone is about to drain a wire, or has got some values from it already. -/
def Draining (c : Clones Wire) (clone : Nat) (got : List Word) : Prop :=
  c.underway clone = some (.draining got) ∨ c.underway clone = none ∧ got = []

theorem next_of_draining {c : Clones Wire} {clone : Nat} {got : List Word}
    (draining : Draining c clone got) :
    c.next clone .drain =
      { shared := (drain got c.shared).2.1
        underway := fun other => if other = clone then (drain got c.shared).2.2
          else c.underway other
        log := c.log ++ [(clone, (drain got c.shared).1)] } := by
  rcases draining with going | ⟨free, rfl⟩
  · rw [next, going]
    rfl
  · rw [next, free]
    rfl

theorem eq_of_toList_eq_nil {w : Wire} (contents : w.toList = []) : w = { closed := w.closed } := by
  obtain ⟨⟨front, back⟩, closed⟩ := w
  have none : front ++ back.reverse = [] := contents
  simp only [List.append_eq_nil_iff, List.reverse_eq_nil_iff] at none
  obtain ⟨rfl, rfl⟩ := none
  rfl

/-- A drain that nobody disturbs gets one value after the other and is over when none is left. -/
theorem returned_of_draining {c : Clones Wire} {clone : Nat} {got queue : List Word}
    (draining : Draining c clone got) (contents : c.shared.toList = queue) :
    Returned ((List.replicate (queue.length + 1) (clone, Call.drain)).foldl
        (fun c a => c.next a.1 a.2) c)
      clone (.drain [] (got ++ queue)) { closed := c.shared.closed } := by
  induction queue generalizing c got with
  | nil =>
    have finished := round_of_nil contents
    have last := next_of_draining draining
    rw [drain, finished] at last
    show Returned (c.next clone .drain) _ _ _
    rw [last]
    exact ⟨if_pos rfl, List.getLast?_concat, eq_of_toList_eq_nil contents⟩
  | cons v rest ih =>
    obtain ⟨w, more, left, same⟩ := round_of_cons contents
    have first := next_of_draining draining
    rw [drain, more] at first
    have going : Draining (c.next clone .drain) clone (got ++ [v]) := by
      rw [first]
      exact .inl (if_pos rfl)
    have remaining : (c.next clone .drain).shared.toList = rest := by
      rw [first]
      exact left
    have closed : (c.next clone .drain).shared.closed = c.shared.closed := by
      rw [first]
      exact same
    have rest_drained := ih going remaining
    rw [closed, List.append_assoc] at rest_drained
    exact rest_drained

/-- If nobody else uses the wire in the meantime, a drain gets everything at once. -/
theorem returned_drain (w : Wire) (clone : Nat) :
    Returned (run w (.replicate (w.toList.length + 1) (clone, .drain))) clone
      (.drain [] w.drain.1) w.drain.2 := by
  have fresh : Draining { shared := w } clone [] := .inr ⟨rfl, rfl⟩
  exact returned_of_draining fresh rfl

/-- If nobody else uses the tape in the meantime, the second look of a poll makes no difference. -/
theorem returned_poll (t : Tape) (clone : Nat) :
    Returned (run t [(clone, .poll)]) clone (.poll (Channel.poll t).1) (Channel.poll t).2 ∨
      Returned (run t [(clone, .poll), (clone, .poll)]) clone (.poll (Channel.poll t).1)
        (Channel.poll t).2 := by
  cases contents : t.toList with
  | nil =>
    have nothing := Tape.poll_of_nil contents
    right
    constructor <;> simp [run, next, begin, look, proceed, nothing, Cloneable.looksTwice]
  | cons v rest =>
    obtain ⟨t', polled, -⟩ := Tape.poll_of_cons contents
    left
    constructor <;> simp [run, next, begin, look, polled]

/-- Clones of a wire and clones of a tape answer, whatever they do and in whatever order, as exact
queues. Closing a wire again, or a tape at all, changes nothing. Whoever then drains the wire or
polls the tape, and is not disturbed, gets what a drain or a poll gets all at once. -/
theorem clones_share_exact_queues (given : List Word) (acts : List (Nat × Call)) :
    (Exact wireRules given (run (Wire.ofList given) acts).log
        (run (Wire.ofList given) acts).shared.toList ∧
      ((run (Wire.ofList given) acts).log.closed = true →
        Channel.close (run (Wire.ofList given) acts).shared =
          (run (Wire.ofList given) acts).shared) ∧
      let w := (run (Wire.ofList given) acts).shared
      ∀ clone, Returned (run w (.replicate (w.toList.length + 1) (clone, .drain))) clone
        (.drain [] w.drain.1) w.drain.2) ∧
    Exact tapeRules given (run (Tape.ofList given) acts).log
        (run (Tape.ofList given) acts).shared.toList ∧
      Channel.close (run (Tape.ofList given) acts).shared =
        (run (Tape.ofList given) acts).shared ∧
      let t := (run (Tape.ofList given) acts).shared
      ∀ clone,
        Returned (run t [(clone, .poll)]) clone (.poll (Channel.poll t).1) (Channel.poll t).2 ∨
          Returned (run t [(clone, .poll), (clone, .poll)]) clone (.poll (Channel.poll t).1)
            (Channel.poll t).2 := by
  have wire := sound_run wire_governed (q := Wire.ofList given) rfl acts
  have tape := sound_run tape_governed (q := Tape.ofList given) rfl acts
  rw [Wire.toList_ofList] at wire
  rw [Tape.toList_ofList] at tape
  refine ⟨⟨wire.exact, ?_, returned_drain _⟩, tape.exact, rfl, returned_poll _⟩
  intro closed
  have shut : (run (Wire.ofList given) acts).shared.closed = true := by
    rw [wire.shut, closed]
    rfl
  show Wire.close _ = _
  rw [Wire.close, ← shut]

/-- Three clones of a wire. One drains it while the others take from it, push and close. -/
def crowd : List (Nat × Call) :=
  [(0, .drain), (1, .take), (2, .push 3), (0, .drain), (2, .close), (0, .drain), (2, .push 4),
    (1, .take)]

/-- What the three clones did, and what became of their wire. -/
theorem crowd_is_exact :
    (run (Wire.ofList [1, 2]) crowd).log =
        [(0, .draw 1), (1, .take (.ok 2)), (2, .push 3 []), (0, .draw 3), (2, .close),
          (0, .drain [] [1, 3]), (2, .push 4 [.droppedValue 4]),
          (1, .take (.error (.fault .notConnected)))] ∧
      (run (Wire.ofList [1, 2]) crowd).log.closed = true ∧
      Exact wireRules [1, 2] (run (Wire.ofList [1, 2]) crowd).log
        (run (Wire.ofList [1, 2]) crowd).shared.toList ∧
      Channel.close (run (Wire.ofList [1, 2]) crowd).shared =
        (run (Wire.ofList [1, 2]) crowd).shared := by
  have closed : (run (Wire.ofList [1, 2]) crowd).log.closed = true := by rfl
  obtain ⟨⟨exact, again, -⟩, -⟩ := clones_share_exact_queues [1, 2] crowd
  exact ⟨by rfl, closed, exact, again closed⟩

end Clones

end Intcode
