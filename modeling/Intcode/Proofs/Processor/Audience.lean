import Intcode.Proofs.Processor.Living

/-!
# Adding listeners while a processor ends

Others add listeners to a processor while it runs and ends. Who adds one takes the termination lock
and finds out whether the termination has been announced: if not, the listener is registered, and if
so, the lock is given back first and then the listener is called. The processor's own thread takes
the lock to announce the termination and to take the registered listeners, gives it back and calls
them one by one. So anything can happen between the single steps of these, and while a listener
runs.
-/

namespace Intcode

namespace Processor

def Phase.isAnnounced {ν : Type} : Phase ν → Bool
  | .ready | .running | .closing _ | .reporting _ | .ending _ => false
  | .notifying .. | .ended _ => true

/-- The listeners that the processor has been told of and has not notified yet. -/
def queue {ν : Type} (p : Processor ν) : List ν :=
  match p.phase with
  | .ready | .running | .closing _ | .reporting _ | .ending _ => p.listeners
  | .notifying _ waiting => waiting
  | .ended _ => []

theorem isTerminated_of_announced {ν : Type} {p : Processor ν}
    (announced : p.phase.isAnnounced = true) : p.status.isTerminated = true := by
  obtain ⟨id, machine, trace, phase, listeners, fired, joined⟩ := p
  cases phase with
  | notifying o waiting | ended o => cases o <;> rfl
  | _ => cases announced

section Queue

variable {ν ι ω : Type} [Channel ι] [Channel ω] {c : Course ν ι ω} {fragile : ω → Bool}

structure SameNews (p q : Processor ν) : Prop where
  announced : q.phase.isAnnounced = p.phase.isAnnounced
  queue : q.queue = p.queue
  fired : q.fired = p.fired

/-- The phases in which the termination is being announced and the listeners are notified. -/
def Phase.isEnding : Phase ν → Bool
  | .ready | .running | .closing _ | .reporting _ | .ended _ => false
  | .ending _ | .notifying .. => true

/-- Up to the announcement the acts of a processor are no news to its listeners. -/
theorem sameNews_act (early : c.processor.phase.isEnding = false) :
    SameNews c.processor (c.liveNext fragile .act).processor := by
  refine Course.liveNext_keeps (P := fun d => SameNews c.processor d.processor) .act ?_ ?_
  · obtain ⟨⟨id, machine, trace, phase, listeners, fired, joined⟩, input, output⟩ := c
    cases phase with
    | running =>
      rw [Course.next, Course.act, act_of_running rfl]
      dsimp only [stepped]
      unfold phaseAfter
      split <;> exact ⟨rfl, rfl, rfl⟩
    | ending o | notifying o waiting => cases early
    | ready | closing o | reporting o | ended o => exact ⟨rfl, rfl, rfl⟩
  · intro o closing
    refine ⟨?_, ?_, rfl⟩
    · rw [closing]
      rfl
    · rw [queue, queue, closing]

/-- What others do to a processor and its channels is no news to its listeners. -/
theorem sameNews_outside (fragile : ω → Bool) {turn : Turn ν} (act : turn.isAct = false)
    (listen : turn.isListen = false) :
    SameNews c.processor (c.liveNext fragile turn).processor ∧
      (c.processor.phase.isEnding = true →
        (c.liveNext fragile turn).processor.phase = c.processor.phase) := by
  obtain ⟨⟨id, machine, trace, phase, listeners, fired, joined⟩, input, output⟩ := c
  cases turn with
  | act => cases act
  | listen l => cases listen
  | input use | output use => exact ⟨⟨rfl, rfl, rfl⟩, fun _ => rfl⟩
  | start =>
    cases phase with
    | ready => exact ⟨⟨rfl, rfl, rfl⟩, nofun⟩
    | _ => exact ⟨⟨rfl, rfl, rfl⟩, fun _ => rfl⟩
  | join =>
    cases phase with
    | ready => cases joined <;> exact ⟨⟨rfl, rfl, rfl⟩, nofun⟩
    | _ => cases joined <;> exact ⟨⟨rfl, rfl, rfl⟩, fun _ => rfl⟩

theorem liveNext_of_ending {o : Outcome} (ending : c.processor.phase = .ending o) :
    (c.liveNext fragile .act).processor =
      { c.processor with phase := .notifying o c.processor.listeners, listeners := [] } := by
  obtain ⟨⟨id, machine, trace, phase, listeners, fired, joined⟩, input, output⟩ := c
  obtain rfl : phase = .ending o := ending
  rfl

theorem liveNext_of_notifying (fragile : ω → Bool) {o : Outcome} {l : ν} {waiting : List ν}
    (notifying : c.processor.phase = .notifying o (l :: waiting)) :
    (c.liveNext fragile .act).processor =
      { c.processor with phase := .notifying o waiting, fired := c.processor.fired ++ [l] } := by
  obtain ⟨⟨id, machine, trace, phase, listeners, fired, joined⟩, input, output⟩ := c
  obtain rfl : phase = .notifying o (l :: waiting) := notifying
  rfl

theorem liveNext_of_notified (fragile : ω → Bool) {o : Outcome}
    (notifying : c.processor.phase = .notifying o []) :
    (c.liveNext fragile .act).processor = { c.processor with phase := .ended o } := by
  obtain ⟨⟨id, machine, trace, phase, listeners, fired, joined⟩, input, output⟩ := c
  obtain rfl : phase = .notifying o [] := notifying
  rfl

/-- A listener that is added is registered, or notified if the termination has been announced. -/
theorem addListener_news (p : Processor ν) (l : ν) :
    (p.addListener l).phase = p.phase ∧
      (p.phase.isAnnounced = false →
        (p.addListener l).queue = p.queue ++ [l] ∧ (p.addListener l).fired = p.fired) ∧
      (p.phase.isAnnounced = true →
        (p.addListener l).queue = p.queue ∧ (p.addListener l).fired = p.fired ++ [l]) := by
  obtain ⟨id, machine, trace, phase, listeners, fired, joined⟩ := p
  cases phase <;> simp [addListener, queue, Phase.isAnnounced]

end Queue

inductive Party where
  /-- The thread of the processor. -/
  | thread
  /-- Who adds the listener with this number. -/
  | call (l : Nat)
  deriving DecidableEq, Repr

/-- How far the adding of a listener has come. -/
inductive Call where
  /-- It needs the lock. -/
  | asking
  /-- It has the lock and has not looked yet. -/
  | deciding
  /-- It has the lock, and knows whether it came after the announcement. -/
  | leaving (late : Bool)
  /-- It has given the lock back and is about to call the listener itself. -/
  | calling
  /-- The listener runs. -/
  | hearing
  | returned (late : Bool)
  deriving DecidableEq, Repr

namespace Call

def hasLock : Call → Bool
  | deciding | leaving _ => true
  | asking | calling | hearing | returned _ => false

/-- The listener has been registered before the announcement. -/
def isEarly : Call → Bool
  | leaving late | returned late => !late
  | asking | deciding | calling | hearing => false

def isLate : Call → Bool
  | leaving late | returned late => late
  | calling | hearing => true
  | asking | deciding => false

def hasHeard : Call → Bool
  | hearing => true
  | returned late => late
  | asking | deciding | leaving _ | calling => false

end Call

/-- A processor between its channels, and those who add listeners to it. The listeners are numbered
in the order in which their adding began. -/
structure Audience (ι ω : Type) where
  course : Course Nat ι ω
  calls : List Call := []
  /-- Who has the termination lock. -/
  holder : Option Party := none
  /-- The listener that runs on the thread of the processor. -/
  current : Option Nat := none
  /-- The listeners that have been registered before the announcement, in order. -/
  early : List Nat := []
  /-- Who has called which listener so far. -/
  notified : List (Party × Nat) := []

inductive Move where
  | start
  | join
  | input (use : Use)
  | output (use : Use)
  /-- The thread of the processor goes on. -/
  | act
  /-- Somebody begins to add a listener. -/
  | add
  /-- The adding of this listener goes on. -/
  | go (l : Nat)
  deriving DecidableEq, Repr

namespace Audience

variable {ι ω : Type} [Channel ι] [Channel ω]

def turn (fragile : ω → Bool) (s : Audience ι ω) (t : Turn Nat) : Audience ι ω :=
  { s with course := s.course.liveNext fragile t }

/-- The thread of the processor goes on. A listener that it runs returns first. -/
def act (fragile : ω → Bool) (s : Audience ι ω) : Audience ι ω :=
  match s.current with
  | some _ => { s with current := none }
  | none =>
    match s.course.processor.phase with
    | .ending _ =>
      match s.holder with
      | none => { s with holder := some .thread }
      | some .thread => s.turn fragile .act
      | some (.call _) => s
    | .notifying _ (l :: _) =>
      if s.holder = some .thread then { s with holder := none }
      else { s.turn fragile .act with
        current := some l, notified := s.notified ++ [(.thread, l)] }
    | .notifying _ [] =>
      if s.holder = some .thread then { s with holder := none } else s.turn fragile .act
    | _ => s.turn fragile .act

def set (s : Audience ι ω) (l : Nat) (c : Call) : Audience ι ω :=
  { s with calls := s.calls.set l c }

def go (fragile : ω → Bool) (s : Audience ι ω) (l : Nat) : Audience ι ω :=
  match s.calls[l]? with
  | some .asking =>
    if s.holder = none then { s.set l .deciding with holder := some (.call l) } else s
  | some .deciding =>
    if s.course.processor.phase.isAnnounced then s.set l (.leaving true)
    else { (s.set l (.leaving false)).turn fragile (.listen l) with early := s.early ++ [l] }
  | some (.leaving late) =>
    { s.set l (if late then .calling else .returned false) with holder := none }
  | some .calling =>
    { (s.set l .hearing).turn fragile (.listen l) with
      notified := s.notified ++ [(.call l, l)] }
  | some .hearing => s.set l (.returned true)
  | some (.returned _) | none => s

def next (fragile : ω → Bool) (s : Audience ι ω) : Move → Audience ι ω
  | .start => s.turn fragile .start
  | .join => s.turn fragile .join
  | .input use => s.turn fragile (.input use)
  | .output use => s.turn fragile (.output use)
  | .act => s.act fragile
  | .add => { s with calls := s.calls ++ [.asking] }
  | .go l => s.go fragile l

def run (fragile : ω → Bool) (s : Audience ι ω) (moves : List Move) : Audience ι ω :=
  moves.foldl (next fragile) s

def load (id : String) (p : Program) (debug : Bool) (input : ι) (output : ω) : Audience ι ω :=
  { course := .load id p debug input output }

def At (s : Audience ι ω) (kind : Call → Bool) (l : Nat) : Prop :=
  ∃ c, s.calls[l]? = some c ∧ kind c = true

/-- The listeners that the thread of the processor has called so far. -/
def told (s : Audience ι ω) : List Nat := (s.notified.filter (·.1 = .thread)).map Prod.snd

structure Sound (s : Audience ι ω) : Prop where
  locked : ∀ l, s.holder = some (.call l) ↔ s.At Call.hasLock l
  owned : s.holder = some .thread → s.course.processor.phase.isEnding = true ∧ s.current = none
  distinct : s.early.Nodup
  registered : ∀ l, l ∈ s.early ↔ s.At Call.isEarly l
  late : ∀ l, s.At Call.isLate l → s.course.processor.phase.isAnnounced = true
  /-- Of the early listeners the first ones have been told and the others are in the queue. -/
  queued : s.told ++ s.course.processor.queue = s.early
  called : ∀ p l, (p, l) ∈ s.notified → p = .thread ∨ p = .call l
  heard : ∀ l, (.call l, l) ∈ s.notified ↔ s.At Call.hasHeard l
  quiet : s.course.processor.phase.isAnnounced = false → s.notified = []
  once : (s.notified.map Prod.snd).Nodup
  fired : s.course.processor.fired = s.notified.map Prod.snd
  runs : ∀ l, s.current = some l → s.course.processor.phase.isAnnounced = true

variable {s : Audience ι ω} {fragile : ω → Bool}

omit [Channel ι] [Channel ω] in
theorem at_set {l : Nat} {c : Call} (here : s.calls[l]? = some c) (c' : Call) (kind : Call → Bool)
    (k : Nat) : (s.set l c').At kind k ↔ if k = l then kind c' = true else s.At kind k := by
  have inside : l < s.calls.length := (List.getElem?_eq_some_iff.mp here).1
  by_cases same : k = l
  · subst same
    simp [At, set, inside]
  · simp [At, set, same, List.getElem?_set_ne (Ne.symm same)]

omit [Channel ι] [Channel ω] in
theorem at_of_call {l : Nat} {c : Call} (here : s.calls[l]? = some c) (kind : Call → Bool) :
    s.At kind l ↔ kind c = true := by
  simp [At, here]

omit [Channel ι] [Channel ω] in
/-- A step of a call matters only to what it changes. -/
theorem at_set_same {l : Nat} {c : Call} (here : s.calls[l]? = some c) (c' : Call)
    {kind : Call → Bool} (same : kind c' = kind c) (k : Nat) :
    (s.set l c').At kind k ↔ s.At kind k := by
  rw [at_set here]
  split
  · rename_i this
    rw [this, at_of_call here, same]
  · rfl

omit [Channel ι] [Channel ω] in
theorem at_add {kind : Call → Bool} (asking : kind .asking = false) (l : Nat) :
    ({ s with calls := s.calls ++ [.asking] } : Audience ι ω).At kind l ↔ s.At kind l := by
  simp only [At]
  by_cases inside : l < s.calls.length
  · rw [List.getElem?_append_left inside]
  · rw [List.getElem?_append_right (by omega), List.getElem?_eq_none (l := s.calls) (by omega)]
    cases l - s.calls.length <;> simp [asking]

/-- A turn that is no news to the listeners. -/
theorem Sound.turn (sound : s.Sound) {t : Turn Nat}
    (news : SameNews s.course.processor (s.course.liveNext fragile t).processor)
    (owned : s.holder = some .thread →
      (s.course.liveNext fragile t).processor.phase.isEnding = true) :
    (s.turn fragile t).Sound where
  locked := sound.locked
  owned here := ⟨owned here, (sound.owned here).2⟩
  distinct := sound.distinct
  registered := sound.registered
  late l here := news.announced.trans (sound.late l here)
  queued := (congrArg (s.told ++ ·) news.queue).trans sound.queued
  called := sound.called
  heard := sound.heard
  quiet early := sound.quiet (news.announced.symm.trans early)
  once := sound.once
  fired := news.fired.trans sound.fired
  runs l here := news.announced.trans (sound.runs l here)

omit [Channel ι] [Channel ω] in
/-- The thread takes the lock or gives it back. -/
theorem Sound.hold (sound : s.Sound) {holder : Option Party} (mine : s.holder = none ∨
      s.holder = some .thread) (here : holder = none ∨ holder = some .thread ∧
      s.course.processor.phase.isEnding = true ∧ s.current = none) :
    ({ s with holder } : Audience ι ω).Sound where
  locked l := by
    have nobody : ¬ s.At Call.hasLock l := by
      rw [← sound.locked l]
      rcases mine with free | mine <;> simp [*]
    constructor
    · intro held
      rcases here with rfl | ⟨rfl, -⟩ <;> cases held
    · intro has
      exact absurd has nobody
  owned held := by
    rcases here with rfl | ⟨-, ending, idle⟩
    · cases held
    · exact ⟨ending, idle⟩
  distinct := sound.distinct
  registered := sound.registered
  late := sound.late
  queued := sound.queued
  called := sound.called
  heard := sound.heard
  quiet := sound.quiet
  once := sound.once
  fired := sound.fired
  runs := sound.runs

theorem Sound.announce (sound : s.Sound) {o : Outcome}
    (ending : s.course.processor.phase = .ending o) (idle : s.current = none) :
    (s.turn fragile .act).Sound where
  locked := sound.locked
  owned _ := by
    simp only [Audience.turn, liveNext_of_ending ending]
    exact ⟨rfl, idle⟩
  distinct := sound.distinct
  registered := sound.registered
  late l here := by
    simp only [Audience.turn, liveNext_of_ending ending]
    rfl
  queued := by
    have before := sound.queued
    rw [queue, ending] at before
    simp only [Audience.turn, liveNext_of_ending ending]
    exact before
  called := sound.called
  heard := sound.heard
  quiet early := by
    simp only [Audience.turn, liveNext_of_ending ending] at early
    cases early
  once := sound.once
  fired := by
    simp only [Audience.turn, liveNext_of_ending ending]
    exact sound.fired
  runs l here := by cases idle.symm.trans here

omit [Channel ι] [Channel ω] in
theorem mem_told {l : Nat} : l ∈ s.told ↔ (.thread, l) ∈ s.notified := by
  simp [told]

omit [Channel ι] [Channel ω] in
/-- A call that is early is not late. -/
theorem not_at_both {l : Nat} {kind : Call → Bool} (late : s.At kind l)
    (early : s.At Call.isEarly l) (apart : ∀ c, kind c = true → Call.isEarly c = false) :
    False := by
  obtain ⟨c, here, isLate⟩ := late
  obtain ⟨c', here', isEarly⟩ := early
  obtain rfl : c = c' := Option.some.inj (here.symm.trans here')
  cases (apart c isLate).symm.trans isEarly

omit [Channel ι] [Channel ω] in
/-- The next listener of the queue has not been called yet: the thread would have told it from the
front of `early`, where it stands only once, and its own caller calls it only if it is late. -/
theorem Sound.fresh_of_queue (sound : s.Sound) {l : Nat} {waiting : List Nat}
    (next : s.course.processor.queue = l :: waiting) : l ∉ s.notified.map Prod.snd := by
  intro known
  obtain ⟨⟨p, k⟩, mem, rfl⟩ := List.mem_map.mp known
  have queued := sound.queued
  rw [next] at queued
  have early : k ∈ s.early := by
    rw [← queued]
    simp
  rcases sound.called p k mem with rfl | rfl
  · have distinct := sound.distinct
    rw [← queued] at distinct
    exact (List.nodup_append.mp distinct).2.2 k (mem_told.mpr mem) k List.mem_cons_self rfl
  · refine not_at_both ((sound.heard k).mp mem) ((sound.registered k).mp early) ?_
    intro c heard
    cases c <;> simp_all [Call.hasHeard, Call.isEarly]

theorem nodup_notified {notified : List (Party × Nat)} (once : (notified.map Prod.snd).Nodup)
    {l : Nat} (fresh : l ∉ notified.map Prod.snd) (p : Party) :
    ((notified ++ [(p, l)]).map Prod.snd).Nodup := by
  rw [List.map_append, List.nodup_append]
  refine ⟨once, by simp, ?_⟩
  rintro k mem k' new rfl
  cases List.mem_singleton.mp new
  exact fresh mem

theorem Sound.notify (sound : s.Sound) {o : Outcome} {l : Nat} {waiting : List Nat}
    (notifying : s.course.processor.phase = .notifying o (l :: waiting))
    (free : s.holder ≠ some .thread) :
    ({ s.turn fragile .act with
        current := some l, notified := s.notified ++ [(.thread, l)] } : Audience ι ω).Sound := by
  have next : s.course.processor.queue = l :: waiting := by
    rw [queue, notifying]
  have fresh := sound.fresh_of_queue next
  have after := liveNext_of_notifying fragile notifying
  have announced : (s.course.liveNext fragile .act).processor.phase.isAnnounced = true := by
    rw [after]
    rfl
  exact
    { locked := sound.locked
      owned := fun held => absurd held free
      distinct := sound.distinct
      registered := sound.registered
      late := fun _ _ => announced
      queued := by
        show ((s.notified ++ [(Party.thread, l)]).filter (·.1 = .thread)).map Prod.snd ++
          (s.course.liveNext fragile .act).processor.queue = s.early
        rw [after, ← sound.queued, next]
        simp [told, queue]
      called := by
        intro p k mem
        rcases List.mem_append.mp mem with old | new
        · exact sound.called p k old
        · cases List.mem_singleton.mp new
          exact .inl rfl
      heard := by
        intro k
        refine Iff.trans ?_ (sound.heard k)
        simp
      quiet := by
        intro early
        cases early.symm.trans announced
      once := by
        exact nodup_notified sound.once fresh .thread
      fired := by
        simp [Audience.turn, after, sound.fired]
      runs := fun _ _ => announced }

theorem Sound.finish (sound : s.Sound) {o : Outcome}
    (notified : s.course.processor.phase = .notifying o []) (free : s.holder ≠ some .thread) :
    (s.turn fragile .act).Sound := by
  have after := liveNext_of_notified fragile notified
  refine sound.turn ⟨?_, ?_, ?_⟩ fun held => absurd held free
  · rw [after, notified]
    rfl
  · rw [after, queue, queue, notified]
  · rw [after]

theorem Sound.act (sound : s.Sound) : (s.act fragile).Sound := by
  unfold Audience.act
  split
  · rename_i l running
    have busy : s.holder ≠ some .thread := by
      intro held
      cases running.symm.trans (sound.owned held).2
    exact ⟨sound.locked, fun held => absurd held busy, sound.distinct, sound.registered,
      sound.late, sound.queued, sound.called, sound.heard, sound.quiet, sound.once, sound.fired,
      nofun⟩
  · rename_i idle
    split
    · rename_i o ending
      split
      · rename_i free
        exact sound.hold (.inl free) (.inr ⟨rfl, by rw [ending]; rfl, idle⟩)
      · exact sound.announce ending idle
      · exact sound
    · rename_i o l waiting notifying
      split
      · rename_i held
        exact sound.hold (.inr held) (.inl rfl)
      · rename_i free
        exact sound.notify notifying free
    · rename_i o notified
      split
      · rename_i held
        exact sound.hold (.inr held) (.inl rfl)
      · rename_i free
        exact sound.finish notified free
    · rename_i ending listening other
      have elsewhere : s.course.processor.phase.isEnding = false := by
        cases here : s.course.processor.phase with
        | ending o => exact absurd here (ending o)
        | notifying o waiting =>
          cases waiting with
          | nil => exact absurd here (other o)
          | cons l waiting => exact absurd here (listening o l waiting)
        | ready | running | closing o | reporting o | ended o => rfl
      refine sound.turn (sameNews_act elsewhere) fun held => ?_
      cases elsewhere.symm.trans (sound.owned held).1

omit [Channel ι] [Channel ω] in
/-- A call goes on to a point at which the same has been registered and heard. -/
theorem Sound.set (sound : s.Sound) {l : Nat} {c : Call} (here : s.calls[l]? = some c) (c' : Call)
    (holder : Option Party) (early : c'.isEarly = c.isEarly) (heard : c'.hasHeard = c.hasHeard)
    (late : c'.isLate = true → s.course.processor.phase.isAnnounced = true)
    (thread : holder = some .thread → s.holder = some .thread)
    (locked : ∀ k, holder = some (.call k) ↔
      if k = l then c'.hasLock = true else s.holder = some (.call k)) :
    ({ s.set l c' with holder } : Audience ι ω).Sound where
  locked k := by
    refine (locked k).trans ?_
    refine Iff.trans ?_ (at_set here c' Call.hasLock k).symm
    split
    · rfl
    · exact sound.locked k
  owned held := sound.owned (thread held)
  distinct := sound.distinct
  registered k := (sound.registered k).trans (at_set_same here c' early k).symm
  late k isLate := by
    rcases em (k = l) with rfl | other
    · refine late ?_
      have now := (at_set here c' Call.isLate k).mp isLate
      rwa [if_pos rfl] at now
    · refine sound.late k ?_
      have now := (at_set here c' Call.isLate k).mp isLate
      rwa [if_neg other] at now
  queued := sound.queued
  called := sound.called
  heard k := (sound.heard k).trans (at_set_same here c' heard k).symm
  quiet := sound.quiet
  once := sound.once
  fired := sound.fired
  runs := sound.runs

/-- A listener is registered before the announcement. -/
theorem Sound.register (sound : s.Sound) {l : Nat} (here : s.calls[l]? = some .deciding)
    (before : s.course.processor.phase.isAnnounced = false) :
    ({ (s.set l (.leaving false)).turn fragile (.listen l) with
        early := s.early ++ [l] } : Audience ι ω).Sound := by
  obtain ⟨same, registers, -⟩ := addListener_news s.course.processor l
  obtain ⟨queued, fired⟩ := registers before
  have announced : (s.course.processor.addListener l).phase.isAnnounced =
      s.course.processor.phase.isAnnounced := by rw [same]
  have new : l ∉ s.early := by
    rw [sound.registered l, at_of_call here]
    nofun
  exact
    { locked := fun k => (sound.locked k).trans (at_set_same here (.leaving false) rfl k).symm
      owned := fun held => ⟨(congrArg _ same).trans (sound.owned held).1, (sound.owned held).2⟩
      distinct := by
        refine List.nodup_append.mpr ⟨sound.distinct, by simp, ?_⟩
        rintro k mem k' this rfl
        cases List.mem_singleton.mp this
        exact new mem
      registered := by
        intro k
        rw [List.mem_append, List.mem_singleton, sound.registered k]
        refine Iff.trans ?_ (at_set here (.leaving false) Call.isEarly k).symm
        split
        · rename_i this
          exact ⟨fun _ => rfl, fun _ => .inr this⟩
        · rename_i other
          exact ⟨fun old => old.resolve_right other, .inl⟩
      late := fun k late =>
        announced.trans (sound.late k ((at_set_same here (.leaving false) rfl k).mp late))
      queued := by
        show s.told ++ (s.course.processor.addListener l).queue = s.early ++ [l]
        rw [queued, ← List.append_assoc, sound.queued]
      called := sound.called
      heard := fun k => (sound.heard k).trans (at_set_same here (.leaving false) rfl k).symm
      quiet := fun early => sound.quiet (announced.symm.trans early)
      once := sound.once
      fired := fired.trans sound.fired
      runs := fun k running => announced.trans (sound.runs k running) }

/-- A late listener is called by the one who adds it. -/
theorem Sound.hear (sound : s.Sound) {l : Nat} (here : s.calls[l]? = some .calling) :
    ({ (s.set l .hearing).turn fragile (.listen l) with
        notified := s.notified ++ [(.call l, l)] } : Audience ι ω).Sound := by
  have after : s.course.processor.phase.isAnnounced = true :=
    sound.late l ((at_of_call here Call.isLate).mpr rfl)
  obtain ⟨same, -, notifies⟩ := addListener_news s.course.processor l
  obtain ⟨queued, fired⟩ := notifies after
  have announced : (s.course.processor.addListener l).phase.isAnnounced = true := by
    rw [same, after]
  have unregistered : l ∉ s.early := by
    rw [sound.registered l, at_of_call here]
    nofun
  have fresh : l ∉ s.notified.map Prod.snd := by
    intro known
    obtain ⟨⟨p, k⟩, mem, rfl⟩ := List.mem_map.mp known
    rcases sound.called p k mem with rfl | rfl
    · refine unregistered ?_
      rw [← sound.queued]
      exact List.mem_append_left _ (mem_told.mpr mem)
    · cases (at_of_call here Call.hasHeard).mp ((sound.heard k).mp mem)
  exact
    { locked := fun k => (sound.locked k).trans (at_set_same here .hearing rfl k).symm
      owned := fun held => ⟨(congrArg _ same).trans (sound.owned held).1, (sound.owned held).2⟩
      distinct := sound.distinct
      registered := fun k => (sound.registered k).trans (at_set_same here .hearing rfl k).symm
      late := fun _ _ => announced
      queued := by
        show ((s.notified ++ [(Party.call l, l)]).filter (·.1 = .thread)).map Prod.snd ++
          (s.course.processor.addListener l).queue = s.early
        rw [queued, ← sound.queued]
        simp [told]
      called := by
        intro p k mem
        rcases List.mem_append.mp mem with old | new
        · exact sound.called p k old
        · cases List.mem_singleton.mp new
          exact .inr rfl
      heard := by
        intro k
        rw [List.mem_append, List.mem_singleton, sound.heard k]
        refine Iff.trans ?_ (at_set here .hearing Call.hasHeard k).symm
        split
        · rename_i this
          subst this
          exact ⟨fun _ => rfl, fun _ => .inr rfl⟩
        · rename_i other
          refine ⟨fun old => old.resolve_right ?_, .inl⟩
          intro this
          cases this
          exact other rfl
      quiet := fun early => by cases early.symm.trans announced
      once := nodup_notified sound.once fresh (.call l)
      fired := by
        show (s.course.processor.addListener l).fired =
          (s.notified ++ [(Party.call l, l)]).map Prod.snd
        rw [fired, sound.fired]
        simp
      runs := fun _ _ => announced }

theorem Sound.go (sound : s.Sound) (l : Nat) : (s.go fragile l).Sound := by
  unfold Audience.go
  split
  · rename_i here
    split
    · rename_i free
      refine sound.set here .deciding (some (.call l)) rfl rfl nofun (by simp) fun k => ?_
      simp [free, Call.hasLock, eq_comm]
    · exact sound
  · rename_i here
    have mine : s.holder = some (.call l) := (sound.locked l).mpr ((at_of_call here _).mpr rfl)
    split
    · rename_i after
      refine sound.set here (.leaving true) s.holder rfl rfl (fun _ => after) (fun held => held)
        fun k => ?_
      simp [mine, Call.hasLock, eq_comm]
    · rename_i before
      exact sound.register here (Bool.eq_false_iff.mpr before)
  · rename_i late here
    have mine : s.holder = some (.call l) := (sound.locked l).mpr ((at_of_call here _).mpr rfl)
    refine sound.set here (if late then .calling else .returned false) none ?_ ?_ ?_ nofun
      fun k => ?_
    · cases late <;> rfl
    · cases late <;> rfl
    · intro isLate
      refine sound.late l ((at_of_call here _).mpr ?_)
      cases late with
      | true => rfl
      | false => exact isLate
    · rw [mine]
      cases late <;> simp [Call.hasLock, eq_comm]
  · rename_i here
    exact sound.hear here
  · rename_i here
    refine sound.set here (.returned true) s.holder rfl rfl ?_ (fun held => held) fun k => ?_
    · exact fun _ => sound.late l ((at_of_call here _).mpr rfl)
    · split
      · rename_i this
        rw [this, sound.locked l, at_of_call here]
        rfl
      · rfl
  · exact sound
  · exact sound

theorem Sound.next (sound : s.Sound) (m : Move) : (s.next fragile m).Sound := by
  have outside (t : Turn Nat) (act : t.isAct = false) (listen : t.isListen = false) :
      (s.turn fragile t).Sound := by
    obtain ⟨news, same⟩ := sameNews_outside (c := s.course) fragile act listen
    refine sound.turn news fun held => ?_
    have ending := (sound.owned held).1
    rw [same ending]
    exact ending
  cases m with
  | start | join | input use | output use => exact outside _ rfl rfl
  | act => exact sound.act
  | go l => exact sound.go l
  | add =>
    refine ⟨fun l => (sound.locked l).trans (at_add rfl l).symm, sound.owned, sound.distinct,
      fun l => (sound.registered l).trans (at_add rfl l).symm,
      fun l late => sound.late l ((at_add rfl l).mp late), sound.queued, sound.called,
      fun l => (sound.heard l).trans (at_add rfl l).symm, sound.quiet, sound.once, sound.fired,
      sound.runs⟩

theorem Sound.run (sound : s.Sound) (fragile : ω → Bool) (moves : List Move) :
    (s.run fragile moves).Sound := by
  induction moves generalizing s with
  | nil => exact sound
  | cons m moves ih => exact ih (sound.next m)

omit [Channel ι] [Channel ω] in
theorem sound_load (id : String) (p : Program) (debug : Bool) (input : ι) (output : ω) :
    (load id p debug input output).Sound where
  locked l := by simp [load, At]
  owned := nofun
  distinct := List.nodup_nil
  registered l := by simp [load, At]
  late l := by simp [load, At]
  queued := rfl
  called := nofun
  heard l := by simp [load, At]
  quiet _ := rfl
  once := List.nodup_nil
  fired := rfl
  runs := nofun

end Audience

end Processor

end Intcode
