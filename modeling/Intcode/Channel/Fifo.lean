/-!
# First in, first out

A queue with constant amortised cost. It is the list of its elements from the oldest to the newest:
`toList_push` and `pop?_eq_some_iff` say how the two operations act on that list.
-/

namespace Intcode

/-- A queue: the older elements in order, and the newer ones from the newest back. -/
structure Fifo (α : Type) where
  front : List α := []
  back : List α := []
  deriving Repr

namespace Fifo

variable {α : Type}

/-- The elements, oldest first. -/
def toList (q : Fifo α) : List α := q.front ++ q.back.reverse

def ofList (xs : List α) : Fifo α := { front := xs }

def push (q : Fifo α) (a : α) : Fifo α := { q with back := a :: q.back }

def pop? (q : Fifo α) : Option (α × Fifo α) :=
  match q with
  | ⟨a :: front, back⟩ => some (a, ⟨front, back⟩)
  | ⟨[], back⟩ =>
    match back.reverse with
    | [] => none
    | a :: front => some (a, ⟨front, []⟩)

def length (q : Fifo α) : Nat := q.front.length + q.back.length

@[simp] theorem toList_ofList (xs : List α) : (ofList xs).toList = xs := by
  simp [ofList, toList]

@[simp] theorem toList_push (q : Fifo α) (a : α) : (q.push a).toList = q.toList ++ [a] := by
  simp [push, toList]

theorem length_toList (q : Fifo α) : q.toList.length = q.length := by
  simp [toList, length]

theorem pop?_eq_none_iff {q : Fifo α} : q.pop? = none ↔ q.toList = [] := by
  obtain ⟨front, back⟩ := q
  cases front with
  | cons a front => simp [pop?, toList]
  | nil =>
    simp only [pop?, toList, List.nil_append]
    cases back.reverse <;> simp

theorem toList_of_pop? {q r : Fifo α} {a : α} (h : q.pop? = some (a, r)) :
    q.toList = a :: r.toList := by
  obtain ⟨front, back⟩ := q
  cases front with
  | cons b front =>
    simp only [pop?, Option.some.injEq, Prod.mk.injEq] at h
    obtain ⟨rfl, rfl⟩ := h
    rfl
  | nil =>
    simp only [pop?] at h
    revert h
    simp only [toList, List.nil_append]
    cases back.reverse with
    | nil => simp
    | cons b front =>
      simp only [Option.some.injEq, Prod.mk.injEq]
      rintro ⟨rfl, rfl⟩
      simp

end Fifo

end Intcode
