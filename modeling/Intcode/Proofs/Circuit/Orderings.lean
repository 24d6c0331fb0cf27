import Intcode.Circuit.Phases
import Mathlib.Data.Fintype.Basic
import Mathlib.Data.List.FinRange
import Mathlib.Data.List.Lex
import Mathlib.Data.List.NodupEquivFin
import Mathlib.Data.Nat.Factorial.Basic
import Mathlib.Data.Set.List

/-!
# Orderings

The orderings of a list are its permutations, and they come in the lexicographic order of the
positions from which their elements are taken. It is the positions and not the elements that are
told apart: each bijection of the positions gives one ordering, also where elements are equal.
-/

namespace Intcode

section Picks

variable {α β : Type}

theorem picks_map (f : α → β) (xs : List α) :
    picks (xs.map f) = (picks xs).map (Prod.map f (List.map f)) := by
  induction xs with
  | nil => rfl
  | cons a xs ih =>
    simp only [List.map_cons, picks, ih, List.map_map, Prod.map_apply, List.cons.injEq, true_and]
    rfl

/-- The elements are picked at the positions in turn. -/
theorem picks_eq_map (xs : List α) :
    picks xs = (List.finRange xs.length).map fun i => (xs.get i, xs.eraseIdx i) := by
  induction xs with
  | nil => rfl
  | cons a xs ih =>
    have indices : List.finRange (a :: xs).length = 0 :: (List.finRange xs.length).map Fin.succ :=
      List.finRange_succ
    rw [picks, ih, indices, List.map_cons, List.map_map, List.map_map]
    rfl

theorem mem_picks {xs : List α} {p : α × List α} :
    p ∈ picks xs ↔ ∃ i : Fin xs.length, (xs.get i, xs.eraseIdx i) = p := by
  simp only [picks_eq_map, List.mem_map, List.mem_finRange, true_and]

theorem perm_of_mem_picks {xs : List α} {p : α × List α} (mem : p ∈ picks xs) :
    (p.1 :: p.2).Perm xs := by
  obtain ⟨i, rfl⟩ := mem_picks.mp mem
  exact List.getElem_cons_eraseIdx_perm i.isLt

theorem exists_mem_picks {xs : List α} {a : α} (mem : a ∈ xs) : ∃ rest, (a, rest) ∈ picks xs := by
  obtain ⟨i, rfl⟩ := List.get_of_mem mem
  exact ⟨_, mem_picks.mpr ⟨i, rfl⟩⟩

theorem sublist_of_mem_picks {xs : List α} {p : α × List α} (mem : p ∈ picks xs) :
    p.2.Sublist xs := by
  obtain ⟨i, rfl⟩ := mem_picks.mp mem
  exact List.eraseIdx_sublist xs i

theorem pairwise_picks [LT α] {xs : List α} (sorted : xs.Pairwise (· < ·)) :
    (picks xs).Pairwise fun p q => p.1 < q.1 := by
  rw [picks_eq_map, List.pairwise_map]
  exact (List.pairwise_lt_finRange _).imp fun less => List.pairwise_iff_get.mp sorted _ _ less

end Picks

section Orderings

variable {α β : Type}

theorem orderingsOf_map (f : α → β) (n : Nat) (xs : List α) :
    orderingsOf n (xs.map f) = (orderingsOf n xs).map (List.map f) := by
  induction n generalizing xs with
  | zero => rfl
  | succ n ih =>
    simp only [orderingsOf, picks_map, List.flatMap_map, List.map_flatMap, List.map_map,
      Prod.map_fst, Prod.map_snd, ih]
    rfl

/-- Replacing the elements of a list replaces those of its orderings. -/
theorem orderings_map (f : α → β) (xs : List α) :
    orderings (xs.map f) = (orderings xs).map (List.map f) := by
  rw [orderings, orderings, List.length_map, orderingsOf_map]

theorem mem_orderingsOf {n : Nat} {xs p : List α} (length : xs.length = n) :
    p ∈ orderingsOf n xs ↔ p.Perm xs := by
  induction n generalizing xs p with
  | zero =>
    obtain rfl := List.eq_nil_of_length_eq_zero length
    rw [orderingsOf, List.mem_singleton, List.perm_nil]
  | succ n ih =>
    have shorter {q : α × List α} (picked : q ∈ picks xs) : q.2.length = n := by
      have same := (perm_of_mem_picks picked).length_eq
      rw [List.length_cons, length] at same
      omega
    simp only [orderingsOf, List.mem_flatMap, List.mem_map]
    constructor
    · rintro ⟨q, picked, t, tail, rfl⟩
      exact (((ih (shorter picked)).mp tail).cons q.1).trans (perm_of_mem_picks picked)
    · intro perm
      cases p with
      | nil =>
        rw [List.nil_perm.mp perm] at length
        cases length
      | cons a t =>
        obtain ⟨rest, picked⟩ := exists_mem_picks (perm.subset List.mem_cons_self)
        have tail := (perm.trans (perm_of_mem_picks picked).symm).cons_inv
        exact ⟨_, picked, t, (ih (shorter picked)).mpr tail, rfl⟩

/-- The orderings of a list are its permutations. -/
theorem mem_orderings {xs p : List α} : p ∈ orderings xs ↔ p.Perm xs :=
  mem_orderingsOf rfl

/-- Orderings with the same pick differ in their tails only, others at the first place. -/
theorem pairwise_orderingsOf [LT α] (n : Nat) {xs : List α} (sorted : xs.Pairwise (· < ·)) :
    (orderingsOf n xs).Pairwise (· < ·) := by
  induction n generalizing xs with
  | zero => exact List.pairwise_singleton _ _
  | succ n ih =>
    refine List.pairwise_flatMap.mpr ⟨fun q picked => ?_, ?_⟩
    · refine List.pairwise_map.mpr ((ih (sorted.sublist (sublist_of_mem_picks picked))).imp ?_)
      exact fun less => List.cons_lt_cons_iff.mpr (.inr ⟨rfl, less⟩)
    · refine (pairwise_picks sorted).imp fun less s mem t mem' => ?_
      obtain ⟨s, -, rfl⟩ := List.mem_map.mp mem
      obtain ⟨t, -, rfl⟩ := List.mem_map.mp mem'
      exact List.cons_lt_cons_iff.mpr (.inl less)

/-- The orderings of a list that ascends are in lexicographic order. -/
theorem pairwise_orderings [LT α] {xs : List α} (sorted : xs.Pairwise (· < ·)) :
    (orderings xs).Pairwise (· < ·) :=
  pairwise_orderingsOf xs.length sorted

/-- A list of at most one element has no ordering but itself. -/
theorem orderings_of_length_le_one {xs : List α} (short : xs.length ≤ 1) : orderings xs = [xs] := by
  rcases xs with _ | ⟨a, _ | ⟨b, xs⟩⟩
  · rfl
  · rfl
  · rw [List.length_cons, List.length_cons] at short
    omega

/-- The orderings of a list take the element at each position in turn, each time with the orderings
of the list from which that position is erased. -/
theorem orderings_eq_flatMap {xs : List α} (nonempty : xs ≠ []) :
    orderings xs = (List.finRange xs.length).flatMap fun i : Fin xs.length =>
      (orderings (xs.eraseIdx i)).map (xs.get i :: ·) := by
  cases xs with
  | nil => exact absurd rfl nonempty
  | cons a xs =>
    have shorter (i : Fin (a :: xs).length) : ((a :: xs).eraseIdx i).length = xs.length := by
      rw [List.length_eraseIdx_of_lt i.isLt, List.length_cons, Nat.add_sub_cancel]
    have unfolded : orderings (a :: xs) = (picks (a :: xs)).flatMap fun p =>
        (orderingsOf xs.length p.2).map (p.1 :: ·) := rfl
    rw [unfolded, picks_eq_map, List.flatMap_map]
    refine List.flatMap_congr fun i _ => ?_
    rw [orderings, shorter]

/-- A list of `n` elements has `n!` orderings. -/
theorem length_orderings (xs : List α) : (orderings xs).length = xs.length.factorial := by
  induction count : xs.length generalizing xs with
  | zero =>
    rw [orderings_of_length_le_one (by omega)]
    rfl
  | succ n ih =>
    have tails (i : Fin xs.length) : (orderings (xs.eraseIdx i)).length = n.factorial :=
      ih _ (by rw [List.length_eraseIdx_of_lt i.isLt, count, Nat.add_sub_cancel])
    rw [orderings_eq_flatMap (List.ne_nil_of_length_eq_add_one count), List.length_flatMap]
    simp only [List.length_map, tails]
    rw [List.map_const', List.length_finRange, List.sum_replicate_nat, count, Nat.factorial_succ]

end Orderings

section Positions

variable {α : Type} {xs : List α}

/-- The positions of a list in some order, each of them once. -/
def Arranges (xs : List α) (js : List (Fin xs.length)) : Prop := js.Perm (List.finRange xs.length)

def placed (xs : List α) (js : List (Fin xs.length)) : List α := js.map xs.get

/-- All orders of the positions, the lexicographically least first. -/
def arrangements (xs : List α) : List (List (Fin xs.length)) := orderings (List.finRange xs.length)

theorem mem_arrangements {js : List (Fin xs.length)} : js ∈ arrangements xs ↔ Arranges xs js :=
  mem_orderings

theorem pairwise_arrangements (xs : List α) : (arrangements xs).Pairwise (· < ·) :=
  pairwise_orderings (List.pairwise_lt_finRange _)

theorem orderings_eq_map_placed (xs : List α) :
    orderings xs = (arrangements xs).map (placed xs) := by
  conv_lhs => rw [← List.map_get_finRange xs, orderings_map]
  rfl

theorem perm_iff_exists_placed {p : List α} :
    p.Perm xs ↔ ∃ js, Arranges xs js ∧ placed xs js = p := by
  rw [← mem_orderings, orderings_eq_map_placed, List.mem_map]
  exact exists_congr fun js => and_congr_left' mem_arrangements

end Positions

section Bijections

variable {α : Type} {n : Nat}

def positions (σ : Equiv.Perm (Fin n)) : List (Fin n) := List.ofFn σ

theorem positions_injective : Function.Injective (positions : Equiv.Perm (Fin n) → _) :=
  List.ofFn_injective.comp DFunLike.coe_injective

/-- The arrangements are what bijections of the positions go through. -/
theorem arranges_iff_exists_positions {xs : List α} {js : List (Fin xs.length)} :
    Arranges xs js ↔ ∃ σ, positions σ = js := by
  constructor
  · intro arranges
    have distinct : js.Nodup := arranges.nodup_iff.mpr (List.nodup_finRange _)
    have all (j : Fin xs.length) : j ∈ js := arranges.mem_iff.mpr (List.mem_finRange j)
    have same : js.length = xs.length := arranges.length_eq.trans List.length_finRange
    refine ⟨(finCongr same.symm).trans (distinct.getEquivOfForallMemList js all), ?_⟩
    refine List.ext_getElem (List.length_ofFn.trans same.symm) fun i _ _ => ?_
    exact List.getElem_ofFn _
  · rintro ⟨σ, rfl⟩
    have perm := σ.ofFn_comp_perm id
    rwa [List.ofFn_id] at perm

/-- All bijections, in some order, go through the arrangements in turn. -/
theorem exists_map_positions (xs : List α) :
    ∃ σs : List (Equiv.Perm (Fin xs.length)), σs.map positions = arrangements xs ∧
      ∀ σ, σ ∈ σs := by
  have gone : arrangements xs ∈ Set.range (List.map positions) := by
    rw [Set.range_list_map]
    exact fun js mem => arranges_iff_exists_positions.mp (mem_arrangements.mp mem)
  obtain ⟨σs, all⟩ := gone
  refine ⟨σs, all, fun σ => ?_⟩
  have mem : positions σ ∈ σs.map positions :=
    all ▸ mem_arrangements.mpr (arranges_iff_exists_positions.mpr ⟨σ, rfl⟩)
  exact (List.mem_map_of_injective positions_injective).mp mem

/-- A list of `n` elements has `n!` orderings. They take the elements from the positions that the
bijections go through: each bijection once, in the lexicographic order of these positions. Every
ordering has each element as often as the list. -/
theorem orderings_enumerate_bijections [DecidableEq α] (xs : List α) :
    (orderings xs).length = xs.length.factorial ∧
      (∃ σs : List (Equiv.Perm (Fin xs.length)),
        orderings xs = σs.map (fun σ => placed xs (positions σ)) ∧
        (∀ σ, σs.count σ = 1) ∧ σs.Pairwise fun σ τ => positions σ < positions τ) ∧
      ∀ p ∈ orderings xs, ∀ a, p.count a = xs.count a := by
  obtain ⟨σs, all, complete⟩ := exists_map_positions xs
  have ascending : σs.Pairwise fun σ τ => positions σ < positions τ :=
    List.pairwise_map.mp (all ▸ pairwise_arrangements xs)
  have distinct : σs.Nodup := ascending.imp fun less => ne_of_apply_ne positions less.ne
  refine ⟨length_orderings xs, ⟨σs, ?_, fun σ => ?_, ascending⟩, fun p mem a => ?_⟩
  · rw [orderings_eq_map_placed, ← all, List.map_map]
    rfl
  · exact List.count_eq_one_of_mem distinct (complete σ)
  · exact (mem_orderings.mp mem).count_eq a

example : orderings [7, 5, 7] =
    [[7, 5, 7], [7, 7, 5], [5, 7, 7], [5, 7, 7], [7, 7, 5], [7, 5, 7]] := by decide

end Bijections

end Intcode
