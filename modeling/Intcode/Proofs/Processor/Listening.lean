import Intcode.Proofs.Processor.Audience

/-!
# Every listener is notified once

However the adding of listeners is interleaved with the end of the processor, each of them is called
once: by the thread of the processor, in the order of their registration, or by the one who adds it,
if that comes after the announcement.
-/

namespace Intcode

namespace Processor

def Move.isOf (p : Party) : Move → Bool
  | .act => p = .thread
  | .go l => p = .call l
  | .start | .join | .input _ | .output _ | .add => false

namespace Audience

variable {ι ω : Type} [Channel ι] [Channel ω] {s : Audience ι ω} {fragile : ω → Bool}

/-- The thread of the processor lets it act, or does something that is no turn of it. -/
theorem course_act (fragile : ω → Bool) (s : Audience ι ω) :
    (s.act fragile).course = s.course ∨
      (s.act fragile).course = s.course.liveNext fragile .act := by
  unfold Audience.act
  split
  · exact .inl rfl
  · split
    · split
      · exact .inl rfl
      · exact .inr rfl
      · exact .inl rfl
    · split
      · exact .inl rfl
      · exact .inr rfl
    · split
      · exact .inl rfl
      · exact .inr rfl
    · exact .inr rfl

/-- The adding of a listener tells the processor of it, or does something that is no turn of it. -/
theorem course_go (fragile : ω → Bool) (s : Audience ι ω) (l : Nat) :
    (s.go fragile l).course = s.course ∨
      (s.go fragile l).course = s.course.liveNext fragile (.listen l) := by
  unfold Audience.go
  split
  · split <;> exact .inl rfl
  · split
    · exact .inl rfl
    · exact .inr rfl
  · exact .inl rfl
  · exact .inr rfl
  · exact .inl rfl
  · exact .inl rfl
  · exact .inl rfl

/-- Whatever happens to an audience, its processor takes the turns that it can take by itself. -/
theorem course_run (fragile : ω → Bool) (s : Audience ι ω) (moves : List Move) :
    ∃ turns, (s.run fragile moves).course = s.course.live fragile turns := by
  have step (s : Audience ι ω) (m : Move) :
      ∃ turns, (s.next fragile m).course = s.course.live fragile turns := by
    cases m with
    | start => exact ⟨[.start], rfl⟩
    | join => exact ⟨[.join], rfl⟩
    | input use => exact ⟨[.input use], rfl⟩
    | output use => exact ⟨[.output use], rfl⟩
    | add => exact ⟨[], rfl⟩
    | act => exact (course_act fragile s).elim (fun h => ⟨[], h⟩) fun h => ⟨[.act], h⟩
    | go l => exact (course_go fragile s l).elim (fun h => ⟨[], h⟩) fun h => ⟨[.listen l], h⟩
  induction moves generalizing s with
  | nil => exact ⟨[], rfl⟩
  | cons m moves ih =>
    obtain ⟨first, here⟩ := step s m
    obtain ⟨rest, there⟩ := ih (s.next fragile m)
    refine ⟨first ++ rest, ?_⟩
    rw [Course.live_append, ← here]
    exact there

/-- A listener is called in one way only: by the thread of the processor or by the one who adds it,
when the status is final, and not by who has the lock. -/
theorem Sound.notified_next (sound : s.Sound) (m : Move) :
    (s.next fragile m).notified = s.notified ∨
      ∃ p l, (s.next fragile m).notified = s.notified ++ [(p, l)] ∧
        s.course.processor.status.isTerminated = true ∧ s.holder ≠ some p ∧
        (p = .thread ∧ m = .act ∨ p = .call l ∧ m = .go l) := by
  cases m with
  | start | join | input use | output use | add => exact .inl rfl
  | act =>
    show (s.act fragile).notified = _ ∨ ∃ p l, (s.act fragile).notified = _ ∧ _
    unfold Audience.act
    split
    · exact .inl rfl
    · split
      · split <;> exact .inl rfl
      · rename_i o l waiting notifying
        split
        · exact .inl rfl
        · rename_i free
          refine .inr ⟨.thread, l, rfl, isTerminated_of_announced ?_, free, .inl ⟨rfl, rfl⟩⟩
          rw [notifying]
          rfl
      · split <;> exact .inl rfl
      · exact .inl rfl
  | go l =>
    show (s.go fragile l).notified = _ ∨ ∃ p k, (s.go fragile l).notified = _ ∧ _
    unfold Audience.go
    split
    · split <;> exact .inl rfl
    · split <;> exact .inl rfl
    · exact .inl rfl
    · rename_i here
      refine .inr ⟨.call l, l, rfl, isTerminated_of_announced ?_, ?_, .inr ⟨rfl, rfl⟩⟩
      · exact sound.late l ((at_of_call here Call.isLate).mpr rfl)
      · rw [Ne, sound.locked l, at_of_call here]
        nofun
    · exact .inl rfl
    · exact .inl rfl
    · exact .inl rfl

def Runs (s : Audience ι ω) : Party → Nat → Prop
  | .thread, l => s.current = some l
  | .call k, l => k = l ∧ s.calls[l]? = some .hearing

omit [Channel ι] [Channel ω] in
/-- Who runs a listener does not have the lock, and the status is final. -/
theorem Sound.runs_free (sound : s.Sound) {p : Party} {l : Nat} (runs : s.Runs p l) :
    s.course.processor.status.isTerminated = true ∧ s.holder ≠ some p := by
  cases p with
  | thread =>
    refine ⟨isTerminated_of_announced (sound.runs l runs), fun held => ?_⟩
    cases (sound.owned held).2.symm.trans runs
  | call k =>
    obtain ⟨rfl, here⟩ := runs
    refine ⟨isTerminated_of_announced (sound.late k ((at_of_call here _).mpr rfl)), ?_⟩
    rw [Ne, sound.locked k, at_of_call here]
    nofun

/-- The number of moves after which the holder of the lock has given it back. -/
def tenure (s : Audience ι ω) : Nat :=
  match s.holder with
  | none => 0
  | some .thread => if s.course.processor.phase.isAnnounced then 1 else 2
  | some (.call l) => if s.calls[l]? = some .deciding then 2 else 1

omit [Channel ι] [Channel ω] in
theorem tenure_of_thread (held : s.holder = some .thread) :
    s.tenure = if s.course.processor.phase.isAnnounced then 1 else 2 := by
  rw [tenure, held]

omit [Channel ι] [Channel ω] in
theorem tenure_of_call {l : Nat} (held : s.holder = some (.call l)) :
    s.tenure = if s.calls[l]? = some .deciding then 2 else 1 := by
  rw [tenure, held]

omit [Channel ι] [Channel ω] in
theorem tenure_le (s : Audience ι ω) : s.tenure ≤ 2 := by
  unfold tenure
  repeat' split
  all_goals omega

/-- The thread of the processor does one thing with the lock before it gives it back. -/
theorem Sound.tenure_act (sound : s.Sound) (held : s.holder = some .thread) :
    (s.act fragile).holder = none ∨
      (s.act fragile).holder = some .thread ∧ (s.act fragile).tenure < s.tenure := by
  obtain ⟨ending, idle⟩ := sound.owned held
  cases here : s.course.processor.phase with
  | ending o =>
    have after : s.act fragile = s.turn fragile .act := by
      simp only [Audience.act, idle, here, held]
    rw [after]
    refine .inr ⟨held, ?_⟩
    rw [tenure_of_thread held, tenure_of_thread (s := s.turn fragile .act) held, here]
    show (if (s.course.liveNext fragile .act).processor.phase.isAnnounced then 1 else 2) < _
    rw [liveNext_of_ending here]
    simp [Phase.isAnnounced]
  | notifying o waiting =>
    left
    cases waiting <;> simp only [Audience.act, idle, here, held, if_true]
  | ready | running | closing o | reporting o | ended o =>
    rw [here] at ending
    cases ending

/-- So does who adds a listener. -/
theorem Sound.tenure_go (sound : s.Sound) {l : Nat} (held : s.holder = some (.call l)) :
    (s.go fragile l).holder = none ∨
      (s.go fragile l).holder = some (.call l) ∧ (s.go fragile l).tenure < s.tenure := by
  obtain ⟨c, here, has⟩ := (sound.locked l).mp held
  have inside : l < s.calls.length := (List.getElem?_eq_some_iff.mp here).1
  cases c with
  | deciding =>
    have looked (late : Bool) : (s.calls.set l (.leaving late))[l]? = some (.leaving late) := by
      rw [List.getElem?_set_self inside]
    right
    have kept : (s.go fragile l).holder = some (.call l) := by
      simp only [Audience.go, here]
      split <;> exact held
    refine ⟨kept, ?_⟩
    rw [tenure_of_call held, tenure_of_call kept, if_pos here, if_neg]
    · decide
    · simp only [Audience.go, here]
      split
      · intro same
        cases (looked true).symm.trans same
      · intro same
        cases (looked false).symm.trans same
  | leaving late =>
    left
    simp only [Audience.go, here]
  | asking | calling | hearing | returned late => cases has

theorem Sound.tenure_own (sound : s.Sound) (fragile : ω → Bool) {p : Party}
    (held : s.holder = some p) {m : Move} (own : m.isOf p = true) :
    (s.next fragile m).holder = none ∨
      (s.next fragile m).holder = some p ∧ (s.next fragile m).tenure < s.tenure := by
  cases m with
  | start | join | input use | output use | add => cases own
  | act =>
    obtain rfl : p = .thread := of_decide_eq_true own
    exact sound.tenure_act held
  | go l =>
    obtain rfl : p = .call l := of_decide_eq_true own
    exact sound.tenure_go held

/-- Who adds a listener does not touch the lock while somebody else has it. -/
theorem Sound.go_other (sound : s.Sound) (fragile : ω → Bool) {p : Party}
    (held : s.holder = some p) {k : Nat} (other : p ≠ .call k) :
    (s.go fragile k).holder = some p ∧
      (s.go fragile k).course.processor.phase = s.course.processor.phase ∧
      ∀ l, l ≠ k → (s.go fragile k).calls[l]? = s.calls[l]? := by
  have foreign : ¬ s.At Call.hasLock k := by
    rw [← sound.locked k, held]
    exact fun same => other (Option.some.inj same)
  have elsewhere (c : Call) (l : Nat) (apart : l ≠ k) : (s.calls.set k c)[l]? = s.calls[l]? :=
    List.getElem?_set_ne (Ne.symm apart)
  have same := (addListener_news s.course.processor k).1
  unfold Audience.go
  split
  · rw [if_neg (by rw [held]; nofun)]
    exact ⟨held, rfl, fun _ _ => rfl⟩
  · rename_i here
    exact absurd ((at_of_call here _).mpr rfl) foreign
  · rename_i here
    exact absurd ((at_of_call here _).mpr rfl) foreign
  · exact ⟨held, same, elsewhere _⟩
  · exact ⟨held, rfl, elsewhere _⟩
  · exact ⟨held, rfl, fun _ _ => rfl⟩
  · exact ⟨held, rfl, fun _ _ => rfl⟩

/-- The thread of the processor does not touch the lock while somebody adds a listener. -/
theorem act_other (fragile : ω → Bool) {l : Nat} (held : s.holder = some (.call l)) :
    (s.act fragile).holder = some (.call l) ∧ (s.act fragile).calls = s.calls := by
  unfold Audience.act
  split
  · exact ⟨held, rfl⟩
  · split
    · rw [held]
      exact ⟨held, rfl⟩
    · rw [if_neg (by rw [held]; nofun)]
      exact ⟨held, rfl⟩
    · rw [if_neg (by rw [held]; nofun)]
      exact ⟨held, rfl⟩
    · exact ⟨held, rfl⟩

/-- The moves of others do not touch the lock while it is held. -/
theorem Sound.tenure_other (sound : s.Sound) (fragile : ω → Bool) {p : Party}
    (held : s.holder = some p) {m : Move} (other : m.isOf p = false) :
    (s.next fragile m).holder = some p ∧ (s.next fragile m).tenure = s.tenure := by
  cases p with
  | thread =>
    suffices same : (s.next fragile m).holder = some .thread ∧
        (s.next fragile m).course.processor.phase.isAnnounced =
          s.course.processor.phase.isAnnounced by
      refine ⟨same.1, ?_⟩
      rw [tenure_of_thread held, tenure_of_thread same.1, same.2]
    cases m with
    | start | join | input use | output use =>
      exact ⟨held, (sameNews_outside fragile rfl rfl).1.announced⟩
    | add => exact ⟨held, rfl⟩
    | act => simp [Move.isOf] at other
    | go k =>
      obtain ⟨stays, phase, -⟩ := sound.go_other fragile held (k := k) nofun
      exact ⟨stays, congrArg _ phase⟩
  | call l =>
    suffices same : (s.next fragile m).holder = some (.call l) ∧
        (s.next fragile m).calls[l]? = s.calls[l]? by
      refine ⟨same.1, ?_⟩
      rw [tenure_of_call held, tenure_of_call same.1, same.2]
    cases m with
    | start | join | input use | output use => exact ⟨held, rfl⟩
    | add =>
      obtain ⟨c, here, -⟩ := (sound.locked l).mp held
      exact ⟨held, List.getElem?_append_left (List.getElem?_eq_some_iff.mp here).1⟩
    | act =>
      obtain ⟨stays, calls⟩ := act_other fragile held
      exact ⟨stays, congrArg (·[l]?) calls⟩
    | go k =>
      have apart : l ≠ k := by simpa [Move.isOf, eq_comm] using other
      obtain ⟨stays, -, calls⟩ := sound.go_other fragile held (k := k)
        (fun same => apart (Party.call.inj same))
      exact ⟨stays, calls l apart⟩

/-- Who has the lock gives it back with the second of its own moves at the latest: these lower
`tenure`, and those of others leave it as it is. -/
theorem Sound.gives_back (sound : s.Sound) {p : Party} (held : s.holder = some p)
    {moves : List Move} (enough : s.tenure ≤ moves.countP (·.isOf p)) :
    ∃ before after, moves = before ++ after ∧ (s.run fragile before).holder = none := by
  induction moves generalizing s with
  | nil =>
    have spent : s.tenure = 0 := Nat.le_zero.mp enough
    unfold tenure at spent
    rw [held] at spent
    cases p <;> dsimp only at spent <;> split at spent <;> cases spent
  | cons m moves ih =>
    have onward (still : (s.next fragile m).holder = some p)
        (enough : (s.next fragile m).tenure ≤ moves.countP (·.isOf p)) :
        ∃ before after, m :: moves = before ++ after ∧ (s.run fragile before).holder = none := by
      obtain ⟨before, after, rfl, free⟩ := ih (sound.next m) still enough
      exact ⟨m :: before, after, rfl, free⟩
    rw [List.countP_cons] at enough
    cases own : m.isOf p with
    | true =>
      rw [own, if_pos rfl] at enough
      rcases sound.tenure_own fragile held own with free | ⟨still, less⟩
      · exact ⟨[m], moves, rfl, free⟩
      · exact onward still (by omega)
    | false =>
      rw [own, if_neg nofun] at enough
      obtain ⟨still, same⟩ := sound.tenure_other fragile held own
      exact onward still (by omega)

/-- Others do not touch the adding of a listener. -/
theorem calls_other {l : Nat} {c : Call} (here : s.calls[l]? = some c) {m : Move}
    (other : m ≠ .go l) : (s.next fragile m).calls[l]? = some c := by
  cases m with
  | start | join | input use | output use => exact here
  | add => exact (List.getElem?_append_left (List.getElem?_eq_some_iff.mp here).1).trans here
  | act =>
    show (s.act fragile).calls[l]? = some c
    unfold Audience.act
    repeat' split
    all_goals exact here
  | go k =>
    have apart : k ≠ l := fun same => other (congrArg Move.go same)
    have there (c' : Call) : (s.calls.set k c')[l]? = some c :=
      (List.getElem?_set_ne apart).trans here
    show (s.go fragile k).calls[l]? = some c
    unfold Audience.go
    split
    · split
      · exact there .deciding
      · exact here
    · split
      · exact there (.leaving true)
      · exact there (.leaving false)
    · exact there _
    · exact there .hearing
    · exact there (.returned true)
    · exact here
    · exact here

/-- The number of moves after which who adds a late listener has called it. -/
def patience : Call → Nat
  | .leaving _ => 2
  | .calling => 1
  | .asking | .deciding | .hearing | .returned _ => 0

omit [Channel ι] [Channel ω] in
/-- A late listener that is no longer to be called has been. -/
theorem Sound.heard_of_patience (sound : s.Sound) {l : Nat} {c : Call}
    (here : s.calls[l]? = some c) (late : c.isLate = true) (done : patience c = 0) :
    (.call l, l) ∈ s.notified := by
  rw [sound.heard l, at_of_call here]
  cases c with
  | leaving late | calling => cases done
  | asking | deciding => cases late
  | hearing => rfl
  | returned isLate => exact late

theorem patience_go (fragile : ω → Bool) {l : Nat} {c : Call} (here : s.calls[l]? = some c)
    (late : c.isLate = true) :
    ∃ c', (s.go fragile l).calls[l]? = some c' ∧ c'.isLate = true ∧
      patience c' ≤ patience c - 1 := by
  have inside : l < s.calls.length := (List.getElem?_eq_some_iff.mp here).1
  have there (c' : Call) : (s.calls.set l c')[l]? = some c' := by
    rw [List.getElem?_set_self inside]
  cases c with
  | asking | deciding => cases late
  | leaving isLate =>
    obtain rfl : isLate = true := late
    refine ⟨.calling, ?_, rfl, le_rfl⟩
    simp only [Audience.go, here]
    exact there .calling
  | calling =>
    refine ⟨.hearing, ?_, rfl, le_rfl⟩
    simp only [Audience.go, here]
    exact there .hearing
  | hearing =>
    refine ⟨.returned true, ?_, rfl, le_rfl⟩
    simp only [Audience.go, here]
    exact there (.returned true)
  | returned isLate =>
    refine ⟨.returned isLate, ?_, late, le_rfl⟩
    simp only [Audience.go, here]

/-- Who adds a late listener gives the lock back and then calls it, whatever happens meanwhile. -/
theorem Sound.hears_soon (sound : s.Sound) {l : Nat} {c : Call} (here : s.calls[l]? = some c)
    (late : c.isLate = true) {moves : List Move} (enough : patience c ≤ moves.count (.go l)) :
    (.call l, l) ∈ (s.run fragile moves).notified := by
  induction moves generalizing s c with
  | nil => exact sound.heard_of_patience here late (Nat.le_zero.mp enough)
  | cons m moves ih =>
    by_cases own : m = .go l
    · subst own
      obtain ⟨c', there, still, less⟩ := patience_go fragile here late
      refine ih (sound.next (.go l)) there still ?_
      rw [List.count_cons_self] at enough
      omega
    · rw [List.count_cons_of_ne own] at enough
      exact ih (sound.next m) (calls_other here own) late enough

omit [Channel ι] [Channel ω] in
/-- When the processor has ended, every listener whose adding is over has been called. -/
theorem Sound.complete (sound : s.Sound) {o : Outcome}
    (ended : s.course.processor.phase = .ended o) :
    s.told = s.early ∧
      ∀ l late, s.calls[l]? = some (.returned late) → l ∈ s.notified.map Prod.snd := by
  have told : s.told = s.early := by
    have queued := sound.queued
    rw [queue, ended, List.append_nil] at queued
    exact queued
  refine ⟨told, fun l late added => ?_⟩
  cases late with
  | true =>
    have called := (sound.heard l).mpr ((at_of_call added Call.hasHeard).mpr rfl)
    exact List.mem_map_of_mem (f := Prod.snd) called
  | false =>
    have early := (sound.registered l).mpr ((at_of_call added Call.isEarly).mpr rfl)
    rw [← told, mem_told] at early
    exact List.mem_map_of_mem (f := Prod.snd) early

/-- Who registers a listener does so before the announcement, and behind all others. -/
theorem early_next (m : Move) :
    (s.next fragile m).early = s.early ∨
      ∃ l, m = .go l ∧ s.course.processor.phase.isAnnounced = false ∧
        (s.next fragile m).early = s.early ++ [l] := by
  cases m with
  | start | join | input use | output use | add => exact .inl rfl
  | act =>
    left
    show (s.act fragile).early = s.early
    unfold Audience.act
    repeat' split
    all_goals rfl
  | go l =>
    show (s.go fragile l).early = _ ∨ ∃ k, Move.go l = .go k ∧ _ ∧ (s.go fragile l).early = _
    unfold Audience.go
    split
    · split <;> exact .inl rfl
    · split
      · exact .inl rfl
      · rename_i before
        exact .inr ⟨l, rfl, Bool.eq_false_iff.mpr before, rfl⟩
    · exact .inl rfl
    · exact .inl rfl
    · exact .inl rfl
    · exact .inl rfl
    · exact .inl rfl

structure Fair (fragile : ω → Bool) (s : Audience ι ω) : Prop where
  /-- No listener is called twice. -/
  once : (s.notified.map Prod.snd).Nodup
  /-- When the processor has ended, every listener that has been registered has been called. -/
  complete : ∀ o, s.course.processor.phase = .ended o → s.told = s.early ∧
    ∀ l late, s.calls[l]? = some (.returned late) → l ∈ s.notified.map Prod.snd
  /-- The thread of the processor calls those registered before the announcement, in order. -/
  ordered : s.told <+: s.early
  registers : ∀ m, (s.next fragile m).early = s.early ∨
    ∃ l, m = .go l ∧ s.course.processor.phase.isAnnounced = false ∧
      (s.next fragile m).early = s.early ++ [l]
  /-- Who wants to add a listener takes the lock once it is free, and looks next. -/
  locks : s.holder = none → ∀ l, s.calls[l]? = some .asking →
    (s.next fragile (.go l)).holder = some (.call l) ∧
      (s.next fragile (.go l)).calls[l]? = some .deciding
  /-- Who looks before the announcement registers the listener, behind all others. -/
  early : s.course.processor.phase.isAnnounced = false → ∀ l, s.calls[l]? = some .deciding →
    (s.next fragile (.go l)).early = s.early ++ [l] ∧
      (s.next fragile (.go l)).course.processor.queue = s.course.processor.queue ++ [l]
  /-- Who looks after the announcement calls the listener, with the next move but one after that. -/
  late : s.course.processor.phase.isAnnounced = true → ∀ l, s.calls[l]? = some .deciding →
    ∀ later, 2 ≤ later.count (.go l) →
      (.call l, l) ∈ ((s.next fragile (.go l)).run fragile later).notified
  /-- No adding is over before the listener has been registered or called. -/
  added : ∀ l (after : Bool), s.calls[l]? = some (.returned after) →
    if after then (.call l, l) ∈ s.notified else l ∈ s.early
  /-- A listener is called when the status is final, by its own caller or by the thread, and not by
  who has the lock. -/
  calls : ∀ m, (s.next fragile m).notified = s.notified ∨
    ∃ p l, (s.next fragile m).notified = s.notified ++ [(p, l)] ∧
      s.course.processor.status.isTerminated = true ∧ s.holder ≠ some p ∧
      (p = .thread ∧ m = .act ∨ p = .call l ∧ m = .go l)
  /-- While a listener runs, the status is final and who runs it does not have the lock. -/
  runs : ∀ p l, s.Runs p l →
    s.course.processor.status.isTerminated = true ∧ s.holder ≠ some p
  /-- Who has the lock gives it back with the second of its own moves at the latest. -/
  unlocks : ∀ p, s.holder = some p → ∀ later : List Move, 2 ≤ later.countP (·.isOf p) →
    ∃ before after, later = before ++ after ∧ (s.run fragile before).holder = none

theorem go_of_asking (fragile : ω → Bool) (free : s.holder = none) {l : Nat}
    (here : s.calls[l]? = some .asking) :
    (s.go fragile l).holder = some (.call l) ∧ (s.go fragile l).calls[l]? = some .deciding := by
  simp only [go, here, free, if_true, true_and]
  exact List.getElem?_set_self (List.getElem?_eq_some_iff.mp here).1

theorem go_of_deciding (fragile : ω → Bool) (before : s.course.processor.phase.isAnnounced = false)
    {l : Nat} (here : s.calls[l]? = some .deciding) :
    (s.go fragile l).early = s.early ++ [l] ∧
      (s.go fragile l).course.processor.queue = s.course.processor.queue ++ [l] := by
  simp only [go, here, before, Bool.false_eq_true, if_false, true_and]
  exact ((addListener_news s.course.processor l).2.1 before).1

theorem Sound.fair (sound : s.Sound) : s.Fair fragile where
  once := sound.once
  complete _ := sound.complete
  ordered := ⟨_, sound.queued⟩
  registers := early_next
  locks free _ := go_of_asking fragile free
  early before _ := go_of_deciding fragile before
  late announced l here later enough := by
    have looked : (s.go fragile l).calls[l]? = some (.leaving true) := by
      simp only [Audience.go, here, announced, if_true]
      exact List.getElem?_set_self (List.getElem?_eq_some_iff.mp here).1
    exact (sound.next (.go l)).hears_soon looked rfl enough
  added l after added := by
    cases after with
    | true => exact (sound.heard l).mpr ((at_of_call added Call.hasHeard).mpr rfl)
    | false => exact (sound.registered l).mpr ((at_of_call added Call.isEarly).mpr rfl)
  calls := sound.notified_next
  runs _ _ := sound.runs_free
  unlocks _ held _ enough := sound.gives_back held (Nat.le_trans s.tenure_le enough)

/-- However the adding of listeners is interleaved with the life of a processor, every listener is
called once. -/
theorem listeners_hear_once (fragile : ω → Bool) (id : String) (p : Program) (debug : Bool)
    (input : ι) (output : ω) (moves : List Move) :
    let s := (load id p debug input output).run fragile moves
    s.Fair fragile ∧
      s.course.processor.fired = s.notified.map Prod.snd ∧
      ∃ turns, s.course = (Course.load id p debug input output).live fragile turns := by
  have sound := (sound_load id p debug input output).run fragile moves
  exact ⟨sound.fair, sound.fired, course_run fragile (load id p debug input output) moves⟩

/-- Two listeners are added before the announcement, the second one while the processor starts, and
a third one while the first one runs. -/
def arrivals : List Move :=
  [.add, .go 0, .go 0, .go 0, .add, .go 1, .go 1, .start, .go 1, .act, .act, .act, .act, .act, .act,
    .act, .add, .go 2, .go 2, .go 2, .go 2, .act, .act, .act, .act]

/-- The third listener is called in between by the one who adds it. -/
theorem arrivals_hear_once :
    let s := (load "m" ⟨#[99]⟩ false Endpoint.unplugged Endpoint.unplugged).run (fun _ => false)
      arrivals
    s.notified = [(.thread, 0), (.call 2, 2), (.thread, 1)] ∧ s.told = s.early ∧
      s.early = [0, 1] ∧ (s.notified.map Prod.snd).Nodup ∧
      s.course.processor.fired = [0, 2, 1] := by
  intro s
  obtain ⟨fair, fired, -⟩ := listeners_hear_once (fun _ => false) "m" ⟨#[99]⟩ false
    Endpoint.unplugged Endpoint.unplugged arrivals
  have notified : s.notified = [(.thread, 0), (.call 2, 2), (.thread, 1)] := by decide +kernel
  obtain ⟨o, ended⟩ : ∃ o, s.course.processor.phase = .ended o := ⟨_, rfl⟩
  refine ⟨notified, (fair.complete o ended).1, by decide +kernel, fair.once, ?_⟩
  rw [fired, notified]
  rfl

end Audience

end Processor

end Intcode
