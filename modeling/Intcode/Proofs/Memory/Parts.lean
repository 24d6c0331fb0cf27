import Intcode.Proofs.Memory

/-!
# The two parts of a memory

A write replaces a cell of the dense prefix, makes the prefix reach out to its address, or goes to
the sparse cells. Whatever has been written, no cell is in both parts, and each write has added one
cell to the prefix at most, unless it made it grow within the limit.
-/

namespace Intcode.Memory

variable {m m' : Memory} {a : Nat}

inductive Places (a : Nat) (m m' : Memory) : Prop
  /-- The cell is in the prefix. -/
  | replaces (dense : a < m.size) (size : m'.size = m.size) (far : ∀ b, b ∈ m'.far ↔ b ∈ m.far)
  /-- The prefix reaches out to the cell and takes over the sparse cells up to it. -/
  | reaches (past : m.size ≤ a) (near : a ≤ max denseLimit m.size) (size : m'.size = a + 1)
      (far : ∀ b, b ∈ m'.far ↔ b ∈ m.far ∧ a < b)
  /-- The cell is too far away for the prefix. -/
  | scatters (beyond : max denseLimit m.size < a) (size : m'.size = m.size)
      (far : ∀ b, b ∈ m'.far ↔ b = a ∨ b ∈ m.far)

theorem mem_far_grow (m : Memory) (size b : Nat) :
    b ∈ (m.grow size).far ↔ b ∈ m.far ∧ size ≤ b := by
  simp only [grow, Std.ExtTreeMap.mem_iff_isSome_getElem?, Std.ExtTreeMap.getElem?_filter']
  cases m.far[b]? with
  | none => simp
  | some v => simp [Option.filter]

theorem places_set (m : Memory) (a : Nat) (v : Word) : Places a m (m.set a v) := by
  obtain ⟨cells, far⟩ := m
  by_cases dense : a < cells.size
  · rw [set, if_pos dense]
    exact .replaces dense Array.size_setIfInBounds fun b => Iff.rfl
  · rw [set, if_neg dense]
    by_cases near : a ≤ max denseLimit cells.size
    · rw [if_pos near]
      refine .reaches (Nat.le_of_not_lt dense) near ?_ (mem_far_grow ⟨cells, far⟩ (a + 1))
      have size := size_grow ⟨cells, far⟩ (a + 1)
      simp only [Memory.size, Array.size_setIfInBounds] at size ⊢
      omega
    · rw [if_neg near]
      refine .scatters (Nat.lt_of_not_le near) rfl fun b => ?_
      rw [Std.ExtTreeMap.mem_insert, Std.LawfulEqCmp.compare_eq_iff_eq, eq_comm]

theorem Places.size_le (places : Places a m m') : m.size ≤ m'.size := by
  cases places with
  | replaces dense size far | scatters beyond size far => exact Nat.le_of_eq size.symm
  | reaches past near size far => omega

/-- One write lets the prefix grow past the limit by one cell at most. -/
theorem Places.max_size_le (places : Places a m m') :
    max denseLimit m'.size ≤ max denseLimit m.size + 1 := by
  cases places <;> omega

/-- The prefix grows by several cells only up to the cell at the limit. -/
theorem Places.size_le_of_leap (places : Places a m m') (leap : m.size + 1 < m'.size) :
    m'.size ≤ denseLimit + 1 := by
  cases places <;> omega

/-- All sparse cells lie beyond the limit and beyond the prefix. -/
structure Separate (m : Memory) : Prop where
  beyond : ∀ a ∈ m.far, denseLimit < a
  outside : ∀ a ∈ m.far, m.size ≤ a

theorem separate_ofArray (cells : Array Word) : (ofArray cells).Separate where
  beyond _ mem := absurd mem Std.ExtTreeMap.not_mem_empty
  outside _ mem := absurd mem Std.ExtTreeMap.not_mem_empty

theorem Separate.places (separate : m.Separate) (places : Places a m m') : m'.Separate := by
  cases places with
  | replaces dense size far =>
    refine ⟨fun b mem => separate.beyond b ((far b).mp mem), fun b mem => ?_⟩
    rw [size]
    exact separate.outside b ((far b).mp mem)
  | reaches past near size far =>
    refine ⟨fun b mem => separate.beyond b ((far b).mp mem).1, fun b mem => ?_⟩
    rw [size]
    exact ((far b).mp mem).2
  | scatters beyond size far =>
    refine ⟨fun b mem => ?_, fun b mem => ?_⟩
    · rcases (far b).mp mem with rfl | old
      · omega
      · exact separate.beyond b old
    · rw [size]
      rcases (far b).mp mem with rfl | old
      · omega
      · exact separate.outside b old

theorem attempt_eq_or_places (m : Memory) (address value : Word) :
    m.attempt address value = m ∨ ∃ a, Places a m (m.attempt address value) := by
  by_cases negative : address.toInt < 0
  · exact .inl (attempt_of_negative negative m value)
  · refine .inr ⟨address.toInt.toNat, ?_⟩
    rw [attempt, write_of_nonneg (Int.not_lt.mp negative)]
    exact places_set m _ value

/-- What no write that succeeds undoes is true after any writes. -/
theorem kept_afterWrites {P : Memory → Prop}
    (kept : ∀ {m m' : Memory} {a : Nat}, Places a m m' → P m → P m') (start : P m)
    (ws : List (Word × Word)) : P (m.afterWrites ws) := by
  induction ws using List.reverseRecOn with
  | nil => exact start
  | append_singleton ws w ih =>
    rw [afterWrites_concat]
    rcases (m.afterWrites ws).attempt_eq_or_places w.1 w.2 with same | ⟨a, places⟩
    · rwa [same]
    · exact kept places ih

theorem separate_afterWrites (cells : Array Word) (ws : List (Word × Word)) :
    ((ofArray cells).afterWrites ws).Separate :=
  kept_afterWrites (fun places separate => separate.places places) (separate_ofArray cells) ws

theorem size_le_afterWrites (m : Memory) (ws : List (Word × Word)) :
    m.size ≤ (m.afterWrites ws).size :=
  kept_afterWrites (P := fun m' => m.size ≤ m'.size)
    (fun places before => Nat.le_trans before places.size_le) (Nat.le_refl _) ws

theorem max_size_afterWrites_le (m : Memory) (ws : List (Word × Word)) :
    max denseLimit (m.afterWrites ws).size ≤ max denseLimit m.size + ws.length := by
  induction ws using List.reverseRecOn with
  | nil => exact Nat.le_refl _
  | append_singleton ws w ih =>
    rw [afterWrites_concat, List.length_append, List.length_singleton]
    rcases (m.afterWrites ws).attempt_eq_or_places w.1 w.2 with same | ⟨a, places⟩
    · rw [same]
      omega
    · have grown := places.max_size_le
      omega

/-- The parts of a memory stay apart, and its prefix stays short. After any writes, failing ones
included, every sparse cell lies beyond the limit and beyond the prefix, so that no cell is in both
parts. The prefix has never become shorter, it has at most one cell for each write more than it had
at the start or than the limit says, and a single write makes it longer by more than one cell only
as far as to the cell at the limit. -/
theorem parts_stay_apart (cells : Array Word) (ws : List (Word × Word)) :
    let m := (ofArray cells).afterWrites ws
    (∀ a ∈ m.far, denseLimit < a ∧ m.size ≤ a) ∧
    (∀ a, ¬(a < m.size ∧ a ∈ m.far)) ∧
    m.size ≤ max cells.size denseLimit + ws.length ∧
    (∀ more, m.size ≤ ((ofArray cells).afterWrites (ws ++ more)).size) ∧
    ∀ address value, let m' := (ofArray cells).afterWrites (ws ++ [(address, value)])
      m.size + 1 < m'.size → m'.size ≤ denseLimit + 1 := by
  intro m
  have separate : m.Separate := separate_afterWrites cells ws
  refine ⟨fun a mem => ⟨separate.beyond a mem, separate.outside a mem⟩, ?_, ?_, ?_, ?_⟩
  · rintro a ⟨dense, mem⟩
    exact absurd dense (Nat.not_lt.mpr (separate.outside a mem))
  · have bound : max denseLimit m.size ≤ max denseLimit cells.size + ws.length :=
      max_size_afterWrites_le (ofArray cells) ws
    omega
  · intro more
    have later : (ofArray cells).afterWrites (ws ++ more) = m.afterWrites more := List.foldl_append
    rw [later]
    exact m.size_le_afterWrites more
  · intro address value m' leap
    have last : m' = m.attempt address value := afterWrites_concat _ ws address value
    rcases m.attempt_eq_or_places address value with same | ⟨a, places⟩
    · rw [last, same] at leap
      omega
    · rw [last] at leap ⊢
      exact places.size_le_of_leap leap

/-- A sparse cell, and a write that adds several cells to the prefix. -/
theorem scattered_parts_stay_apart :
    let m := (ofArray #[7]).afterWrites [(2000000, 5)]
    let m' := (ofArray #[7]).afterWrites ([(2000000, 5)] ++ [(3, 9)])
    (2000000 ∈ m.far ∧ denseLimit < 2000000 ∧ m.size ≤ 2000000) ∧ m.size ≤ denseLimit + 1 ∧
      m.size + 1 < m'.size ∧ m'.size ≤ denseLimit + 1 := by
  intro m m'
  obtain ⟨sparse, -, bound, -, leaps⟩ := parts_stay_apart #[7] [(2000000, 5)]
  have kept : 2000000 ∈ m.far := by decide
  have leap : m.size + 1 < m'.size := by decide
  exact ⟨⟨kept, sparse _ kept⟩, bound, leap, leaps 3 9 leap⟩

end Intcode.Memory
