import Intcode.Proofs.Channel.Contents
import Intcode.Proofs.Droid.Maze
import Mathlib.Data.List.Perm.Subperm

/-!
# Distances on a map

A search looks at the points in the order of their distance. Its queue holds what is left of the
points at one distance and then those found one move farther away, and all that is nearer is on
record. So no number that is looked up is missing, and the goal is met at its distance. Every turn
takes a point off the queue for good, and only known points are ever queued; that is why a search
ends.
-/

namespace Intcode.Droid.Maze

variable {m : Maze} {p goal : Point} {s : Search} {k t : Nat}

abbrev Open (m : Maze) (p : Point) : Prop := m.isPassable p = true

theorem discover_of_fresh {q : Point} (free : m.Open q) (unseen : q ∉ s.moves) :
    m.discover k s q = { queue := s.queue.push q, moves := s.moves.insert q k } :=
  if_pos (by simpa [← Bool.not_eq_true] using ⟨free, unseen⟩)

theorem discover_of_old {q : Point} (old : ¬(m.Open q ∧ q ∉ s.moves)) : m.discover k s q = s :=
  if_neg (by simpa [← Bool.not_eq_true] using old)

/-- What is on record while the points at distance `k` are looked at: `now` are those among them
that are still queued, `later` those that have been found behind them. -/
structure Recorded (m : Maze) (p : Point) (k : Nat) (now later : List Point) (s : Search) :
    Prop where
  queue : s.queue.toList = now ++ later
  sound : ∀ {q : Point} {j : Nat}, s.moves[q]? = some j → Apart m.Open p q j
  near : ∀ {q : Point} {j : Nat}, j ≤ k → Apart m.Open p q j → q ∈ s.moves
  bound : ∀ {q : Point} {j : Nat}, s.moves[q]? = some j → j ≤ k + 1
  current : ∀ q ∈ now, s.moves[q]? = some k
  found : ∀ q, q ∈ later ↔ s.moves[q]? = some (k + 1)

structure Entered (m : Maze) (qs : List Point) (s s' : Search) : Prop where
  mem : ∀ x, x ∈ s'.moves ↔ x ∈ s.moves ∨ x ∈ qs ∧ m.Open x
  size : s'.moves.size + s.queue.toList.length = s.moves.size + s'.queue.toList.length

section Entering

variable {now later : List Point} {a : Point}

theorem Recorded.discover (r : Recorded m p k now later s) (w : Walk m.Open p k a) {q : Point}
    (next : q ∈ a.neighbours) :
    ∃ later', Recorded m p k now later' (m.discover (k + 1) s q) ∧
      Entered m [q] s (m.discover (k + 1) s q) := by
  by_cases fresh : m.Open q ∧ q ∉ s.moves
  · obtain ⟨free, unseen⟩ := fresh
    have apart : Apart m.Open p q (k + 1) := by
      refine ⟨w.move next free, fun j shorter => ?_⟩
      by_contra near
      obtain ⟨d, nearest⟩ := Walk.exists_apart shorter
      have le := nearest.2 shorter
      exact unseen (r.near (by omega) nearest)
    have reading (x : Point) : (s.moves.insert q (k + 1))[x]? =
        if q = x then some (k + 1) else s.moves[x]? := by
      simp [Std.ExtTreeMap.getElem?_insert]
    rw [discover_of_fresh free unseen]
    refine ⟨later ++ [q], ⟨?_, ?_, ?_, ?_, ?_, ?_⟩, ⟨?_, ?_⟩⟩
    · rw [Fifo.toList_push, r.queue, List.append_assoc]
    · intro x j known
      rw [reading] at known
      split at known
      · rename_i same
        obtain rfl := Option.some.inj known
        exact same ▸ apart
      · exact r.sound known
    · intro x j le nearest
      exact Std.ExtTreeMap.mem_insert.mpr (.inr (r.near le nearest))
    · intro x j known
      rw [reading] at known
      split at known
      · exact (Option.some.inj known).symm.le
      · exact r.bound known
    · intro x mem
      have known := r.current x mem
      have other : q ≠ x := by
        rintro rfl
        exact unseen (Std.ExtTreeMap.mem_iff_isSome_getElem?.mpr (Option.isSome_of_eq_some known))
      rw [reading, if_neg other, known]
    · intro x
      rw [List.mem_append, List.mem_singleton, r.found, reading]
      by_cases same : q = x
      · simp [same]
      · simp [same, Ne.symm same]
    · intro x
      simp only [Std.ExtTreeMap.mem_insert, Std.LawfulEqCmp.compare_eq_iff_eq, List.mem_singleton]
      constructor
      · rintro (rfl | old)
        · exact .inr ⟨rfl, free⟩
        · exact .inl old
      · rintro (old | ⟨rfl, -⟩)
        · exact .inr old
        · exact .inl rfl
    · rw [Std.ExtTreeMap.size_insert, if_neg (by simpa using unseen), Fifo.toList_push,
        List.length_append, List.length_singleton]
      omega
  · rw [discover_of_old fresh]
    refine ⟨later, r, fun x => ⟨.inl, ?_⟩, rfl⟩
    rintro (old | ⟨mem, free⟩)
    · exact old
    · obtain rfl := List.mem_singleton.mp mem
      by_contra unseen
      exact fresh ⟨free, unseen⟩

theorem Entered.trans {qs rs : List Point} {s' s'' : Search} (first : Entered m qs s s')
    (next : Entered m rs s' s'') : Entered m (qs ++ rs) s s'' := by
  refine ⟨fun x => ?_, ?_⟩
  · rw [next.mem, first.mem, List.mem_append, or_and_right, or_assoc]
  · have before := first.size
    have after := next.size
    omega

theorem Recorded.discoverAll (r : Recorded m p k now later s) (w : Walk m.Open p k a)
    (qs : List Point) (next : ∀ q ∈ qs, q ∈ a.neighbours) :
    ∃ later', Recorded m p k now later' (qs.foldl (m.discover (k + 1)) s) ∧
      Entered m qs s (qs.foldl (m.discover (k + 1)) s) := by
  induction qs generalizing later s with
  | nil => exact ⟨later, r, by simp, rfl⟩
  | cons q qs ih =>
    obtain ⟨mid, found, entered⟩ := r.discover w (next q List.mem_cons_self)
    obtain ⟨later', recorded, rest⟩ := ih found fun x mem => next x (List.mem_cons_of_mem q mem)
    exact ⟨later', recorded, entered.trans rest⟩

end Entering

/-- A search for a goal after `t` turns, while the points at distance `k` are looked at. -/
structure Level (m : Maze) (p goal : Point) (t k : Nat) (now later : List Point) (s : Search) :
    Prop extends Recorded m p k now later s where
  behind : ∀ q, Apart m.Open p q k → q ∉ now → ∀ x ∈ q.neighbours, m.Open x → x ∈ s.moves
  ahead : ∀ {j}, j ≤ k → Apart m.Open p goal j → goal ∈ now
  size : t + s.queue.toList.length = s.moves.size

theorem level_start (m : Maze) (p goal : Point) : Level m p goal 0 0 [p] [] (.start p) := by
  have reading (q : Point) :
      ((∅ : Chart Nat).insert p 0)[q]? = if p = q then some 0 else none := by
    simp [Std.ExtTreeMap.getElem?_insert]
  have here : Apart m.Open p p 0 := ⟨.stay, fun _ _ => Nat.zero_le _⟩
  refine ⟨⟨rfl, ?_, ?_, ?_, ?_, ?_⟩, ?_, ?_, ?_⟩
  · intro q j known
    rw [Search.start, reading] at known
    split at known
    · rename_i same
      obtain rfl := Option.some.inj known
      exact same ▸ here
    · cases known
  · intro q j le apart
    obtain rfl := Nat.le_zero.mp le
    obtain rfl := apart.1.eq_of_zero
    simp [Search.start]
  · intro q j known
    rw [Search.start, reading] at known
    split at known
    · obtain rfl := Option.some.inj known
      exact Nat.zero_le 1
    · cases known
  · intro q mem
    obtain rfl := List.mem_singleton.mp mem
    rw [Search.start, reading, if_pos rfl]
  · intro q
    rw [Search.start, reading]
    split <;> simp
  · intro q apart elsewhere
    exact absurd (List.mem_singleton.mpr apart.1.eq_of_zero) elsewhere
  · intro j le apart
    obtain rfl := Nat.le_zero.mp le
    exact List.mem_singleton.mpr apart.1.eq_of_zero
  · simp [Search.start, Std.ExtTreeMap.size_insert]

section Turning

variable {now later : List Point} {a : Point}

/-- Once all points at a distance have been looked at, those one move farther away are queued. -/
theorem Level.reached (l : Level m p goal t k [] later s) {q : Point}
    (apart : Apart m.Open p q (k + 1)) : q ∈ later := by
  obtain ⟨free, r, before, next⟩ := apart.last
  have found := l.behind r before List.not_mem_nil q next free
  obtain ⟨j, known⟩ := Option.isSome_iff_exists.mp (Std.ExtTreeMap.mem_iff_isSome_getElem?.mp found)
  have same := apart.unique (l.sound known)
  exact (l.found q).mpr (same ▸ known)

/-- The search goes on to the next distance. -/
theorem Level.shift (l : Level m p goal t k [] later s) :
    Level m p goal t (k + 1) later [] s := by
  refine ⟨⟨?_, l.sound, ?_, ?_, ?_, ?_⟩, ?_, ?_, l.size⟩
  · rw [l.queue, List.nil_append, List.append_nil]
  · intro q j le apart
    rcases Nat.le_succ_iff.mp le with near | rfl
    · exact l.near near apart
    · have known := (l.found q).mp (l.reached apart)
      exact Std.ExtTreeMap.mem_iff_isSome_getElem?.mpr (Option.isSome_of_eq_some known)
  · exact fun known => (l.bound known).trans (Nat.le_succ _)
  · exact fun q mem => (l.found q).mp mem
  · refine fun q => iff_of_false List.not_mem_nil fun known => ?_
    have bound := l.bound known
    omega
  · exact fun q apart passed => absurd (l.reached apart) passed
  · intro j le apart
    rcases Nat.le_succ_iff.mp le with near | rfl
    · exact absurd (l.ahead near apart) List.not_mem_nil
    · exact l.reached apart

/-- If nothing is queued any more, no walk leads to the goal. -/
theorem Level.over (l : Level m p goal t k [] [] s) (n : Nat) : ¬Walk m.Open p n goal := by
  intro w
  obtain ⟨d, apart⟩ := w.exists_apart
  by_cases near : d ≤ k
  · exact absurd (l.ahead near apart) List.not_mem_nil
  · obtain ⟨q, farther⟩ := apart.through (m := k + 1) (by omega)
    exact absurd (l.reached farther) List.not_mem_nil

def Tells (m : Maze) (p goal : Point) : Finding → Prop
  | .reached d => Apart m.Open p goal d
  | .unreachable => ∀ n, ¬Walk m.Open p n goal
  | .unrecorded => False

/-- A turn that meets the goal ends the search with its distance. -/
theorem Level.meets (l : Level m p goal t k (goal :: now) later s) :
    m.turn goal s = .error (.reached k) ∧ Apart m.Open p goal k := by
  obtain ⟨queue, popped, -⟩ := Fifo.pop?_of_cons l.queue
  have known := l.current goal List.mem_cons_self
  refine ⟨?_, l.sound known⟩
  simp only [turn, popped, known, if_true]

/-- Any other turn enters the open neighbours of a point that it takes off the queue. -/
theorem Level.passes (l : Level m p goal t k (a :: now) later s) (other : a ≠ goal) :
    ∃ later' s', m.turn goal s = .ok s' ∧ Level m p goal (t + 1) k now later' s' := by
  have queued : s.queue.toList = a :: (now ++ later) := l.queue
  obtain ⟨queue, popped, left⟩ := Fifo.pop?_of_cons queued
  have known := l.current a List.mem_cons_self
  have here := l.sound known
  have rest : Recorded m p k now later { s with queue } :=
    ⟨left, l.sound, l.near, l.bound, fun q mem => l.current q (List.mem_cons_of_mem a mem), l.found⟩
  obtain ⟨later', recorded, entered⟩ := rest.discoverAll here.1 a.neighbours fun _ mem => mem
  refine ⟨later', _, by simp only [turn, popped, known, if_neg other], recorded, ?_, ?_, ?_⟩
  · intro q apart passed x next free
    rw [entered.mem]
    by_cases same : q = a
    · exact .inr ⟨same ▸ next, free⟩
    · exact .inl (l.behind q apart (by simpa [same] using passed) x next free)
  · intro j le apart
    exact (List.mem_cons.mp (l.ahead le apart)).resolve_left (Ne.symm other)
  · have sizes := entered.size
    have before := l.size
    rw [queued, List.length_cons, ← left] at before
    dsimp only at sizes
    omega

end Turning

def Underway (m : Maze) (p goal : Point) (t : Nat) (s : Search) : Prop :=
  ∃ k now later, Level m p goal t k now later s

/-- There is a point to look at, or there is none at all. -/
theorem Underway.cases (u : Underway m p goal t s) :
    (∃ k a now later, Level m p goal t k (a :: now) later s) ∨
      ∃ k, Level m p goal t k [] [] s := by
  obtain ⟨k, now, later, l⟩ := u
  cases now with
  | cons a now => exact .inl ⟨k, a, now, later, l⟩
  | nil =>
    cases later with
    | nil => exact .inr ⟨k, l⟩
    | cons a later => exact .inl ⟨k + 1, a, later, [], l.shift⟩

/-- A turn ends the search with a finding that is so, or the search goes on. -/
theorem Underway.turn (u : Underway m p goal t s) :
    (∃ f, m.turn goal s = .error f ∧ Tells m p goal f) ∨
      ∃ s', m.turn goal s = .ok s' ∧ Underway m p goal (t + 1) s' := by
  rcases u.cases with ⟨k, a, now, later, l⟩ | ⟨k, l⟩
  · by_cases same : a = goal
    · subst same
      exact .inl ⟨_, l.meets⟩
    · obtain ⟨later', s', turned, next⟩ := l.passes same
      exact .inr ⟨s', turned, k, now, later', next⟩
  · have empty : s.queue.pop? = none := Fifo.pop?_eq_none_iff.mpr l.queue
    exact .inl ⟨.unreachable, by simp only [Maze.turn, empty], l.over⟩

theorem Underway.search (u : Underway m p goal t s) (n : Nat) :
    (∃ f, m.search goal n s = .error f ∧ Tells m p goal f) ∨
      ∃ s', m.search goal n s = .ok s' ∧ Underway m p goal (t + n) s' := by
  induction n generalizing s t with
  | zero => exact .inr ⟨s, rfl, u⟩
  | succ n ih =>
    rcases u.turn with ⟨f, ended, tells⟩ | ⟨s', turned, next⟩
    · exact .inl ⟨f, by simp only [Maze.search, ended], tells⟩
    · simp only [Maze.search, turned]
      rcases ih next with finished | ⟨s'', searched, later⟩
      · exact .inl finished
      · exact .inr ⟨s'', searched, Nat.succ_add_eq_add_succ t n ▸ later⟩

/-- A number is on record for every queued point. -/
theorem Underway.recorded (u : Underway m p goal t s) {q : Point} (mem : q ∈ s.queue.toList) :
    ∃ d, s.moves[q]? = some d ∧ Apart m.Open p q d := by
  obtain ⟨k, now, later, l⟩ := u
  rw [l.queue, List.mem_append] at mem
  have known : ∃ d, s.moves[q]? = some d := by
    rcases mem with now | later
    · exact ⟨k, l.current q now⟩
    · exact ⟨k + 1, (l.found q).mp later⟩
  obtain ⟨d, known⟩ := known
  exact ⟨d, known, l.sound known⟩

theorem open_of_walk {r : Point} {n : Nat} (h : m.Open p) (w : Walk m.Open p n r) : m.Open r := by
  cases w with
  | stay => exact h
  | move _ _ free => exact free

/-- There are no more turns than known points: each takes another point off the queue. -/
theorem Underway.turns_le (u : Underway m p goal t s) (free : m.Open p) : t ≤ m.known := by
  obtain ⟨k, now, later, l⟩ := u
  have sub : s.moves.keys ⊆ m.cells.keys := by
    intro r mem
    obtain ⟨j, found⟩ := Option.isSome_iff_exists.mp
      (Std.ExtTreeMap.mem_iff_isSome_getElem?.mp (Std.ExtTreeMap.mem_keys.mp mem))
    obtain ⟨c, known, -⟩ := isPassable_iff.mp (open_of_walk free (l.sound found).1)
    rw [Std.ExtTreeMap.mem_keys, Std.ExtTreeMap.mem_iff_isSome_getElem?]
    exact Option.isSome_of_eq_some known
  have le := Std.ExtTreeMap.nodup_keys.length_le_of_subset sub
  rw [Std.ExtTreeMap.length_keys, Std.ExtTreeMap.length_keys] at le
  have size := l.size
  rw [known]
  omega

theorem underway_start (m : Maze) (p goal : Point) : Underway m p goal 0 (.start p) :=
  ⟨0, [p], [], level_start m p goal⟩

/-- A search ends, with a finding that is so. -/
theorem search_ends (goal : Point) (free : m.Open p) :
    ∃ f, m.search goal (m.known + 1) (.start p) = .error f ∧ Tells m p goal f := by
  rcases (underway_start m p goal).search (m.known + 1) with ended | ⟨s, -, u⟩
  · exact ended
  · have le := u.turns_le free
    omega

/-- The distance on a map is the least number of moves of a walk over known points other than
walls. -/
theorem distance_eq_some_iff {d : Nat} (free : m.Open p) :
    m.distance p goal = some d ↔ Apart m.Open p goal d := by
  obtain ⟨f, ended, tells⟩ := search_ends goal free
  rw [distance, if_pos free, ended]
  cases f with
  | reached d' =>
    rw [Option.some.injEq]
    exact ⟨fun same => same ▸ tells, tells.unique⟩
  | unreachable => exact iff_of_false nofun fun apart => tells d apart.1
  | unrecorded => exact tells.elim

/-- A point that is known and not as a wall. -/
def Floor (m : Maze) (p : Point) : Prop := ∃ c, m.cellAt? p = some c ∧ c ≠ .wall

/-- A path of a number of moves over known points other than walls, both ends included. -/
def Path (m : Maze) (p q : Point) (n : Nat) : Prop := m.Floor p ∧ Walk m.Floor p n q

theorem path_iff {n : Nat} : m.Path p goal n ↔ m.Open p ∧ Walk m.Open p n goal := by
  have same : m.Floor = m.Open := funext fun q => propext isPassable_iff.symm
  rw [Path, same]

/-- The distance is the length of a shortest path, and there is none exactly where there is no path.
A search from a known point that is no wall ends, and until then every queued point has its number
of moves on record. -/
theorem distance_is_fewest_moves (m : Maze) (p goal : Point) :
    (∀ d, m.distance p goal = some d ↔ IsLeast {n | m.Path p goal n} d) ∧
    (m.distance p goal = none ↔ ∀ n, ¬m.Path p goal n) ∧
    (m.Floor p →
      (∃ n ≤ m.known + 1, ∃ f, m.search goal n (.start p) = .error f ∧ f ≠ .unrecorded) ∧
      ∀ n s, m.search goal n (.start p) = .ok s →
        ∀ q ∈ s.queue.toList, (s.moves[q]?).isSome = true) := by
  have shortest : ∀ d, m.distance p goal = some d ↔ IsLeast {n | m.Path p goal n} d := by
    intro d
    simp only [path_iff]
    by_cases free : m.Open p
    · have same : {n | m.Open p ∧ Walk m.Open p n goal} = {n | Walk m.Open p n goal} :=
        Set.ext fun n => and_iff_right free
      rw [same]
      exact distance_eq_some_iff free
    · have nowhere : m.distance p goal = none := if_neg free
      rw [nowhere]
      exact iff_of_false nofun fun least => free least.1.1
  refine ⟨shortest, ?_, fun floor => ?_⟩
  · constructor
    · intro none n path
      obtain ⟨free, w⟩ := path_iff.mp path
      obtain ⟨d, apart⟩ := w.exists_apart
      have some := (distance_eq_some_iff free).mpr apart
      rw [none] at some
      cases some
    · intro noPath
      cases found : m.distance p goal with
      | none => rfl
      | some d => exact absurd ((shortest d).mp found).1 (noPath d)
  · have free : m.Open p := isPassable_iff.mpr floor
    constructor
    · obtain ⟨f, ended, tells⟩ := search_ends goal free
      refine ⟨m.known + 1, le_rfl, f, ended, ?_⟩
      rintro rfl
      exact tells
    · intro n s searched q mem
      rcases (underway_start m p goal).search n with ⟨f, ended, -⟩ | ⟨s', reached, u⟩
      · rw [ended] at searched
        cases searched
      · obtain rfl := Except.ok.inj (reached.symm.trans searched)
        obtain ⟨d, known, -⟩ := u.recorded mem
        exact Option.isSome_of_eq_some known

/-- A map with a way around a wall, and a floor that no path leads to. -/
def detour : Maze :=
  [((⟨1, 0⟩ : Point), Cell.wall), (⟨0, 1⟩, .floor), (⟨1, 1⟩, .floor), (⟨2, 1⟩, .floor),
    (⟨2, 0⟩, .oxygen), (⟨5, 0⟩, .floor)].foldl (fun m c => m.record c.1 c.2) .start

/-- It is four moves to the other side of the wall, and no search gets to the last floor. -/
theorem detour_is_fewest_moves :
    IsLeast {n | detour.Path .origin ⟨2, 0⟩ n} 4 ∧ (∀ n, ¬detour.Path .origin ⟨5, 0⟩ n) ∧
      detour.Floor .origin ∧
      ∃ n ≤ detour.known + 1, ∃ f,
        detour.search ⟨5, 0⟩ n (.start .origin) = .error f ∧ f ≠ .unrecorded := by
  have around : detour.distance .origin ⟨2, 0⟩ = some 4 := by decide +kernel
  have nowhere : detour.distance .origin ⟨5, 0⟩ = none := by decide +kernel
  have floor : detour.Floor .origin := ⟨.floor, by decide +kernel, nofun⟩
  have apart := distance_is_fewest_moves detour .origin ⟨5, 0⟩
  exact ⟨((distance_is_fewest_moves detour .origin ⟨2, 0⟩).1 4).mp around,
    apart.2.1.mp nowhere, floor, (apart.2.2 floor).1⟩

end Intcode.Droid.Maze
