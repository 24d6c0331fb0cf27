import Intcode.Proofs.Circuit.Orderings

/-!
# The search for the strongest signal

A search that tries the orderings of a list in turn stops at the first failure; if there is none,
it ends with the first of the orderings that give the largest signal.
-/

namespace Intcode

section Search

variable {ε : Type} (task : List Word → Except ε (Option Word))

def noting (ordering : List Word) : ExceptT ε (StateM (List (List Word))) (Option Word) :=
  fun tried => (task ordering, tried ++ [ordering])

/-- The orderings up to the first one on which the task fails, this one included. -/
def upToFailure : List (List Word) → List (List Word)
  | [] => []
  | o :: rest =>
    match task o with
    | .ok _ => o :: upToFailure rest
    | .error _ => [o]

theorem run_noting (o : List Word) (tried : List (List Word)) :
    (noting task o).run.run tried = (task o, tried ++ [o]) := rfl

/-- A search that notes its calls comes to the same result. -/
theorem bestAmong_noting (best : Option Candidate) (os tried : List (List Word)) :
    (bestAmong (noting task) best os).run.run tried =
      (bestAmong task best os, tried ++ upToFailure task os) := by
  induction os generalizing best tried with
  | nil => rw [upToFailure, List.append_nil]; rfl
  | cons o os ih =>
    simp only [bestAmong, upToFailure, ExceptT.run_bind, StateT.run_bind, run_noting]
    cases task o with
    | error e => rfl
    | ok signal =>
      refine (ih (stronger best o signal) (tried ++ [o])).trans ?_
      rw [List.append_assoc]
      rfl

/-- What a search has come to after some orderings without a failure: no signal yet, or the first of
the orderings that gave the largest signal. -/
def Leads (tried : List (List Word)) : Option Candidate → Prop
  | none => ∀ o ∈ tried, task o = .ok none
  | some (p, top) => ∃ before after, tried = before ++ p :: after ∧ task p = .ok (some top) ∧
      (∀ o ∈ before, ∀ signal, task o = .ok (some signal) → signal < top) ∧
      ∀ o ∈ after, ∀ signal, task o = .ok (some signal) → signal ≤ top

variable {task}

/-- A signal counts if it is larger than all before. -/
theorem Leads.step {tried : List (List Word)} {best : Option Candidate} {o : List Word}
    {found : Option Word} (leads : Leads task tried best) (called : task o = .ok found) :
    Leads task (tried ++ [o]) (stronger best o found) := by
  have only {signal : Word} (given : task o = .ok (some signal)) : found = some signal :=
    Except.ok.inj (called.symm.trans given)
  cases best with
  | none =>
    have silent {o : List Word} (mem : o ∈ tried) {signal : Word} :
        task o ≠ .ok (some signal) := by
      rw [leads o mem]
      nofun
    cases found with
    | none => exact List.forall_mem_append.mpr ⟨leads, List.forall_mem_singleton.mpr called⟩
    | some signal =>
      exact ⟨tried, [], rfl, called, fun o mem _ given => absurd given (silent mem), nofun⟩
  | some candidate =>
    obtain ⟨p, top⟩ := candidate
    obtain ⟨before, after, rfl, given, less, atMost⟩ := leads
    have stays (small : ∀ signal, found = some signal → signal ≤ top) :
        Leads task (before ++ p :: after ++ [o]) (some (p, top)) := by
      refine ⟨before, after ++ [o], by simp, given, less, List.forall_mem_append.mpr ⟨atMost, ?_⟩⟩
      exact List.forall_mem_singleton.mpr fun signal given => small signal (only given)
    cases found with
    | none => exact stays nofun
    | some signal =>
      simp only [stronger]
      split
      · rename_i larger
        refine ⟨before ++ p :: after, [], rfl, called, fun o mem signal' given' => ?_, nofun⟩
        rcases List.mem_append.mp mem with mem | mem
        · exact Int64.lt_trans (less o mem signal' given') larger
        rcases List.mem_cons.mp mem with rfl | mem
        · obtain rfl : top = signal' := Option.some.inj (Except.ok.inj (given.symm.trans given'))
          exact larger
        · exact Int64.lt_of_le_of_lt (atMost o mem signal' given') larger
      · rename_i small
        refine stays fun signal' same => ?_
        obtain rfl := Option.some.inj same
        exact Int64.not_lt.mp small

/-- A search goes through all orderings or up to the first one on which the task fails. -/
theorem Leads.search {tried : List (List Word)} {best : Option Candidate}
    (leads : Leads task tried best) (os : List (List Word)) :
    (∃ best', bestAmong task best os = .ok best' ∧ Leads task (tried ++ os) best' ∧
      (∀ o ∈ os, ∃ found, task o = .ok found) ∧ upToFailure task os = os) ∨
    ∃ before o after e, os = before ++ o :: after ∧ (∀ o ∈ before, ∃ found, task o = .ok found) ∧
      task o = .error e ∧ bestAmong task best os = .error e ∧
      upToFailure task os = before ++ [o] := by
  induction os generalizing tried best with
  | nil => exact .inl ⟨best, rfl, by rwa [List.append_nil], nofun, rfl⟩
  | cons o os ih =>
    cases called : task o with
    | error e =>
      refine .inr ⟨[], o, os, e, rfl, nofun, called, ?_, ?_⟩
      · simp only [bestAmong, called]
        rfl
      · simp only [upToFailure, called, List.nil_append]
    | ok found =>
      have passed {before : List (List Word)} (all : ∀ o ∈ before, ∃ found, task o = .ok found) :
          ∀ o' ∈ o :: before, ∃ found, task o' = .ok found :=
        List.forall_mem_cons.mpr ⟨⟨found, called⟩, all⟩
      have goesOn : bestAmong task best (o :: os) = bestAmong task (stronger best o found) os := by
        simp only [bestAmong, called]
        rfl
      have calls : upToFailure task (o :: os) = o :: upToFailure task os := by
        simp only [upToFailure, called]
      rw [goesOn, calls]
      rcases ih (leads.step called) with ⟨best', done, leads', all, whole⟩ |
        ⟨before, o', after, e, rfl, all, failed, done, cut⟩
      · exact .inl ⟨best', done, by rwa [List.append_assoc] at leads', passed all, by rw [whole]⟩
      · exact .inr ⟨o :: before, o', after, e, rfl, passed all, failed, done, by rw [cut]; rfl⟩

variable (task) in
/-- The largest signal, with the lexicographically first ordering by position that gives it. -/
def StrongestFirst (phases p : List Word) (top : Word) : Prop :=
  ∃ js, Arranges phases js ∧ placed phases js = p ∧ task p = .ok (some top) ∧
    (∀ q signal, q.Perm phases → task q = .ok (some signal) → signal ≤ top) ∧
    ∀ ks, Arranges phases ks → task (placed phases ks) = .ok (some top) → js ≤ ks

/-- These are the orderings at some of the arrangements, in the lexicographic order of positions. -/
def InTurn (phases : List Word) (which : List (Fin phases.length) → Prop)
    (tried : List (List Word)) : Prop :=
  ∃ jss : List (List (Fin phases.length)), jss.Pairwise (· < ·) ∧
    (∀ js, js ∈ jss ↔ Arranges phases js ∧ which js) ∧ tried = jss.map (placed phases)

variable {phases p : List Word} {top : Word}

theorem inTurn_orderings (phases : List Word) : InTurn phases (fun _ => True) (orderings phases) :=
  ⟨arrangements phases, pairwise_arrangements phases,
    fun _ => by rw [mem_arrangements, and_true], orderings_eq_map_placed phases⟩

/-- An ordering on the way splits the arrangements into those before its own and those after. -/
theorem exists_arrangement {before after : List (List Word)}
    (split : orderings phases = before ++ p :: after) :
    ∃ js, Arranges phases js ∧ placed phases js = p ∧
      (∀ ks, Arranges phases ks → ks < js → placed phases ks ∈ before) ∧
      (∀ ks, Arranges phases ks → js < ks → placed phases ks ∈ after) ∧
      InTurn phases (· ≤ js) (before ++ [p]) := by
  rw [orderings_eq_map_placed] at split
  obtain ⟨jss, kss, parts, rfl, rest⟩ := List.map_eq_append_iff.mp split
  obtain ⟨js, kss, rfl, rfl, rfl⟩ := List.map_eq_cons_iff.mp rest
  have sorted := pairwise_arrangements phases
  have mem (ks : List (Fin phases.length)) :
      Arranges phases ks ↔ ks ∈ jss ∨ ks = js ∨ ks ∈ kss := by
    rw [← mem_arrangements, parts, List.mem_append, List.mem_cons]
  rw [parts, List.pairwise_append, List.pairwise_cons] at sorted
  obtain ⟨first, ⟨later, -⟩, apart⟩ := sorted
  have earlier {ks : List (Fin phases.length)} (here : ks ∈ jss) : ks < js :=
    apart ks here js List.mem_cons_self
  refine ⟨js, (mem js).mpr (.inr (.inl rfl)), rfl, fun ks arranges less => ?_,
    fun ks arranges less => ?_, jss ++ [js], ?_, fun ks => ?_, by rw [List.map_append]; rfl⟩
  · rcases (mem ks).mp arranges with here | rfl | here
    · exact List.mem_map_of_mem here
    · exact absurd less (lt_irrefl _)
    · exact absurd less (lt_asymm (later ks here))
  · rcases (mem ks).mp arranges with here | rfl | here
    · exact absurd less (lt_asymm (earlier here))
    · exact absurd less (lt_irrefl _)
    · exact List.mem_map_of_mem here
  · exact List.pairwise_append.mpr ⟨first, List.pairwise_singleton _ _,
      fun ks here => List.forall_mem_singleton.mpr (earlier here)⟩
  · rw [mem, List.mem_append, List.mem_singleton]
    constructor
    · rintro (here | rfl)
      · exact ⟨.inl here, le_of_lt (earlier here)⟩
      · exact ⟨.inr (.inl rfl), le_refl _⟩
    · rintro ⟨here | rfl | here, le⟩
      · exact .inl here
      · exact .inr rfl
      · exact absurd (later ks here) (not_lt_of_ge le)

/-- What a search through all orderings has come to is the first of the strongest. -/
theorem Leads.strongestFirst (leads : Leads task (orderings phases) (some (p, top))) :
    StrongestFirst task phases p top := by
  obtain ⟨before, after, split, given, less, atMost⟩ := leads
  obtain ⟨js, arranges, rfl, earlier, later, -⟩ := exists_arrangement split
  refine ⟨js, arranges, rfl, given, fun q signal perm given' => ?_, fun ks arranges' given' => ?_⟩
  · have tried := mem_orderings.mpr perm
    rw [split, List.mem_append, List.mem_cons] at tried
    rcases tried with mem | rfl | mem
    · exact Int64.le_of_lt (less q mem signal given')
    · obtain rfl := Option.some.inj (Except.ok.inj (given.symm.trans given'))
      exact Int64.le_refl _
    · exact atMost q mem signal given'
  · by_contra smaller
    have before := earlier ks arranges' (not_le.mp smaller)
    exact Int64.lt_irrefl (less _ before top given')

/-- There is only one such ordering, and one such signal. -/
theorem StrongestFirst.unique {q : List Word} {top' : Word}
    (h : StrongestFirst task phases p top) (h' : StrongestFirst task phases q top') :
    p = q ∧ top = top' := by
  obtain ⟨js, arranges, rfl, given, largest, first⟩ := h
  obtain ⟨ks, arranges', rfl, given', largest', first'⟩ := h'
  have perm {ls : List (Fin phases.length)} (arranges : Arranges phases ls) :
      (placed phases ls).Perm phases := perm_iff_exists_placed.mpr ⟨ls, arranges, rfl⟩
  obtain rfl : top = top' := Int64.le_antisymm (largest' _ _ (perm arranges) given)
    (largest _ _ (perm arranges') given')
  obtain rfl : js = ks := le_antisymm (first ks arranges' given') (first' js arranges given)
  exact ⟨rfl, rfl⟩

/-- What a search through all orderings has come to says whether there is a signal, and which
ordering gives the strongest first. -/
theorem Leads.found {best : Option Candidate} (leads : Leads task (orderings phases) best) :
    (best = none ↔ ∀ p, p.Perm phases → ∀ signal, task p ≠ .ok (some signal)) ∧
      ∀ p top, best = some (p, top) ↔ StrongestFirst task phases p top := by
  have tried {js : List (Fin phases.length)} (arranges : Arranges phases js) :
      placed phases js ∈ orderings phases :=
    mem_orderings.mpr (perm_iff_exists_placed.mpr ⟨js, arranges, rfl⟩)
  cases best with
  | none =>
    have silent {p : List Word} (here : p ∈ orderings phases) (signal : Word) :
        task p ≠ .ok (some signal) := by
      rw [leads p here]
      nofun
    refine ⟨iff_of_true rfl fun p perm => silent (mem_orderings.mpr perm),
      fun p top => iff_of_false nofun ?_⟩
    rintro ⟨js, arranges, rfl, given, -⟩
    exact silent (tried arranges) top given
  | some candidate =>
    have strongest := leads.strongestFirst
    refine ⟨iff_of_false nofun fun silent => ?_, fun p top => ⟨?_, fun strongest' => ?_⟩⟩
    · obtain ⟨js, arranges, same, given, -⟩ := strongest
      exact silent _ (mem_orderings.mp (same ▸ tried arranges)) _ given
    · intro same
      obtain rfl := Option.some.inj same
      exact strongest
    · obtain ⟨rfl, rfl⟩ := strongest.unique strongest'
      rfl

/-- The search goes through all permutations in the lexicographic order of positions. If the task
fails on none, it finds the first of the strongest, or nothing if there is no signal. Otherwise it
ends with the first failure, and the task is not called any more. -/
theorem search_is_exhaustive_and_stable (phases : List Word)
    (task : List Word → Except ε (Option Word)) :
    let result := bestPhases phases task
    ∃ tried, (bestPhases phases (noting task)).run.run [] = (result, tried) ∧
      ((∀ p, p.Perm phases → ∃ found, task p = .ok found) →
        InTurn phases (fun _ => True) tried ∧
        (∃ best, result = .ok best) ∧
        (result = .ok none ↔ ∀ p, p.Perm phases → ∀ signal, task p ≠ .ok (some signal)) ∧
        ∀ p top, result = .ok (some (p, top)) ↔ StrongestFirst task phases p top) ∧
      ((∃ p, p.Perm phases ∧ ∃ e, task p = .error e) →
        ∃ js e, Arranges phases js ∧ task (placed phases js) = .error e ∧
          (∀ ks, Arranges phases ks → ks < js → ∃ found, task (placed phases ks) = .ok found) ∧
          result = .error e ∧ InTurn phases (· ≤ js) tried) := by
  intro result
  have noted := bestAmong_noting task none (orderings phases) []
  refine ⟨upToFailure task (orderings phases), noted, ?_⟩
  have start : Leads task [] none := nofun
  rcases start.search (orderings phases) with
    ⟨best, done, leads, all, whole⟩ | ⟨before, o, after, e, split, all, failed, done, cut⟩
  · have found : result = .ok best := done
    rw [whole, found]
    refine ⟨fun _ => ⟨inTurn_orderings phases, ⟨best, rfl⟩, ?_⟩, ?_⟩
    · simpa only [Except.ok.injEq] using Leads.found (List.nil_append (orderings phases) ▸ leads)
    · rintro ⟨p, perm, e, failed⟩
      obtain ⟨found, called⟩ := all p (mem_orderings.mpr perm)
      rw [failed] at called
      cases called
  · obtain ⟨js, arranges, rfl, earlier, -, inTurn⟩ := exists_arrangement split
    refine ⟨fun never => ?_, fun _ => ⟨js, e, arranges, failed, ?_, done, cut ▸ inTurn⟩⟩
    · obtain ⟨found, called⟩ := never _ (perm_iff_exists_placed.mpr ⟨js, arranges, rfl⟩)
      rw [failed] at called
      cases called
    · exact fun ks arranges' less => all _ (earlier ks arranges' less)

end Search

/-- The signal is the phase of the first stage; a circuit of which that phase is 1 gives none, and
one that ends with the phase 0 fails. -/
def firstStage (p : List Word) : Except Unit (Option Word) :=
  if p.getLast? = some 0 then .error ()
  else .ok (p.head?.filter (· ≠ 1))

/-- Of the phases 1, 2 and 2, either 2 can be first, and then the 1 can be next: the ordering that
takes the second phase first is found. With the phases 1, 0 and 2 the second ordering fails, and no
other one is tried. -/
theorem search_among_equal_and_failing :
    (∀ p, p.Perm [1, 2, 2] → ∃ found, firstStage p = .ok found) ∧
      StrongestFirst firstStage [1, 2, 2] [2, 1, 2] 2 ∧
      (∃ p, p.Perm [1, 0, 2] ∧ ∃ e, firstStage p = .error e) ∧
      (∃ js, Arranges [1, 0, 2] js ∧ firstStage (placed [1, 0, 2] js) = .error () ∧
        InTurn [1, 0, 2] (· ≤ js) [[1, 0, 2], [1, 2, 0]]) := by
  have never : ∀ p, p.Perm [1, 2, 2] → ∃ found, firstStage p = .ok found := by
    intro p perm
    refine ⟨_, if_neg fun last => ?_⟩
    exact absurd (perm.subset (List.mem_of_getLast? last)) (by decide)
  have fails : ∃ p, p.Perm [1, 0, 2] ∧ ∃ e, firstStage p = .error e :=
    ⟨[1, 2, 0], by decide, (), rfl⟩
  obtain ⟨_, -, faultless, -⟩ := search_is_exhaustive_and_stable [1, 2, 2] firstStage
  obtain ⟨-, -, -, strongest⟩ := faultless never
  obtain ⟨tried, noted, -, failing⟩ := search_is_exhaustive_and_stable [1, 0, 2] firstStage
  obtain ⟨js, e, arranges, failed, -, -, inTurn⟩ := failing fails
  obtain rfl : tried = [[1, 0, 2], [1, 2, 0]] := congrArg Prod.snd noted.symm
  exact ⟨never, (strongest _ _).mp rfl, fails, js, arranges, failed, inTurn⟩

end Intcode
