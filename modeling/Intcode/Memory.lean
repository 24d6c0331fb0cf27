import Intcode.Fault
import Std.Data.ExtTreeMap

/-!
# Memory

A memory is a total map from addresses to words in which unwritten cells hold 0. Low addresses are
kept in a dense prefix that grows when it is written past its end; a write far beyond the prefix
goes to a sparse map, from which cells move into the prefix once it reaches them. `get_set` says
that none of this can be read off a memory: a write changes the cell it names and no other.
-/

namespace Intcode

/-- The last index that a write adds to a shorter dense prefix. -/
def Memory.denseLimit : Nat := 0x100000

/-- A dense prefix of cells and the cells that were written far beyond it. -/
structure Memory where
  cells : Array Word := #[]
  far : Std.ExtTreeMap Nat Word := ∅
  deriving DecidableEq

namespace Memory

def ofArray (cells : Array Word) : Memory := { cells }

def size (m : Memory) : Nat := m.cells.size

def isEmpty (m : Memory) : Bool := m.cells.isEmpty && m.far.isEmpty

def get (m : Memory) (a : Nat) : Word :=
  match m.cells[a]? with
  | some v => v
  | none => m.far.getD a 0

/-- The memory with a dense prefix of at least `size` cells and unchanged content. -/
def grow : Memory → Nat → Memory
  | ⟨cells, far⟩, size =>
    let start := cells.size
    { cells := cells ++ Array.ofFn fun i : Fin (size - start) => far.getD (start + i) 0
      far := far.filter fun a _ => size ≤ a }

/-- Writes a cell. The prefix grows to an address that is at most its own size or `denseLimit`. -/
def set : Memory → Nat → Word → Memory
  | ⟨cells, far⟩, a, v =>
    if a < cells.size then
      ⟨cells.setIfInBounds a v, far⟩
    else if a ≤ max denseLimit cells.size then
      match grow ⟨cells, far⟩ (a + 1) with
      | ⟨cells, far⟩ => ⟨cells.setIfInBounds a v, far⟩
    else
      ⟨cells, far.insert a v⟩

def read (m : Memory) (address : Word) : Except Fault Word :=
  match address.toNat? with
  | some a => .ok (m.get a)
  | none => .error (.negativeAddress address)

def write (m : Memory) (address value : Word) : Except Fault Memory :=
  match address.toNat? with
  | some a => .ok (m.set a value)
  | none => .error (.negativeAddress address)

theorem size_grow (m : Memory) (size : Nat) : (m.grow size).size = max m.size size := by
  simp only [grow, Memory.size, Array.size_append, Array.size_ofFn]
  omega

theorem get_grow (m : Memory) (size a : Nat) : (m.grow size).get a = m.get a := by
  obtain ⟨cells, far⟩ := m
  simp only [grow, get, Array.getElem?_append]
  by_cases dense : a < cells.size
  · simp only [if_pos dense, Array.getElem?_eq_getElem dense]
  · simp only [if_neg dense, Array.getElem?_eq_none (Nat.le_of_not_lt dense)]
    by_cases reached : a < size
    · have inGap : a - cells.size < size - cells.size := by omega
      rw [Array.getElem?_eq_getElem (by simpa using inGap)]
      simp only [Array.getElem_ofFn]
      rw [Nat.add_sub_cancel' (Nat.le_of_not_lt dense)]
    · have outOfGap : size - cells.size ≤ a - cells.size := by omega
      rw [Array.getElem?_eq_none (by simpa using outOfGap)]
      simp only [Std.ExtTreeMap.getD_eq_getD_getElem?, Std.ExtTreeMap.getElem?_filter']
      cases far[a]? with
      | none => rfl
      | some v => simp [Option.filter, Nat.le_of_not_lt reached]

theorem get_set (m : Memory) (a b : Nat) (v : Word) :
    (m.set a v).get b = if b = a then v else m.get b := by
  obtain ⟨cells, far⟩ := m
  by_cases dense : a < cells.size
  · simp only [set, if_pos dense, get, Array.getElem?_setIfInBounds]
    by_cases h : b = a
    · subst h
      simp
    · simp [h, Ne.symm h]
  · by_cases near : a ≤ max denseLimit cells.size
    · have wide : a < (grow ⟨cells, far⟩ (a + 1)).cells.size := by
        have := size_grow ⟨cells, far⟩ (a + 1)
        simp only [Memory.size] at this
        omega
      have same := get_grow ⟨cells, far⟩ (a + 1) b
      simp only [set, if_neg dense, if_pos near]
      revert wide same
      cases grow ⟨cells, far⟩ (a + 1) with
      | mk grown rest =>
        intro wide same
        simp only [get, Array.getElem?_setIfInBounds] at same ⊢
        by_cases h : b = a
        · subst h
          simp [wide]
        · simpa [h, Ne.symm h] using same
    · simp only [set, if_neg dense, if_neg near, get]
      by_cases h : b = a
      · subst h
        simp [Array.getElem?_eq_none (Nat.le_of_not_lt dense)]
      · simp [Std.ExtTreeMap.getD_insert, h, Ne.symm h]

end Memory

end Intcode
