import Intcode.Word

/-!
# Phase settings

The search for the order of phases with the strongest signal. Every ordering is tried once, in
lexicographic order of positions, so the first of several equally strong ones wins.
-/

namespace Intcode

/-- Each element of a list in turn, with the list that is left without it. -/
def picks {α : Type} : List α → List (α × List α)
  | [] => []
  | a :: rest => (a, rest) :: (picks rest).map fun p => (p.1, a :: p.2)

/-- The orderings of `n` elements of a list, in lexicographic order of positions. -/
def orderingsOf {α : Type} : Nat → List α → List (List α)
  | 0, _ => [[]]
  | n + 1, xs => (picks xs).flatMap fun p => (orderingsOf n p.2).map (p.1 :: ·)

/-- All orderings of a list, in lexicographic order of positions. -/
def orderings {α : Type} (xs : List α) : List (List α) := orderingsOf xs.length xs

abbrev Candidate := List Word × Word

def stronger (best : Option Candidate) (ordering : List Word) : Option Word → Option Candidate
  | none => best
  | some signal =>
    match best with
    | some (_, top) => if top < signal then some (ordering, signal) else best
    | none => some (ordering, signal)

def bestAmong {m : Type → Type} [Monad m] (task : List Word → m (Option Word)) :
    Option Candidate → List (List Word) → m (Option Candidate)
  | best, [] => pure best
  | best, ordering :: rest => do
    let signal ← task ordering
    bestAmong task (stronger best ordering signal) rest

/-- The ordering of the phases with the largest signal, if any ordering gives one. -/
def bestPhases {m : Type → Type} [Monad m] (phases : List Word)
    (task : List Word → m (Option Word)) : m (Option Candidate) :=
  bestAmong task none (orderings phases)

example : orderings [1, 2, 3] =
    [[1, 2, 3], [1, 3, 2], [2, 1, 3], [2, 3, 1], [3, 1, 2], [3, 2, 1]] := by decide
example : orderings ([] : List Nat) = [[]] := by decide
example : bestPhases [0, 1, 2] (fun p => some (p.head?.map (· * 10))) =
    some (some ([2, 0, 1], 20)) := by decide

end Intcode
