import Intcode.Droid.Maze
import Intcode.Proofs.Plane
import Mathlib.Data.List.Induction

/-!
# What a map says

Readings of a map after each of its updates, and what its questions ask: the frontier test and the
choice of the next heading in terms of the cells and the visits.
-/

namespace Intcode.Droid.Maze

theorem cellAt?_start (p : Point) :
    start.cellAt? p = if Point.origin = p then some .floor else none := by
  simp [start, cellAt?, Std.ExtTreeMap.getElem?_insert]

theorem visitsAt_start (p : Point) : start.visitsAt p = if Point.origin = p then 1 else 0 := by
  simp [start, visitsAt, Std.ExtTreeMap.getD_insert]

theorem cellAt?_record (m : Maze) (p q : Point) (c : Cell) :
    (m.record p c).cellAt? q = if p = q then some c else m.cellAt? q := by
  simp [record, cellAt?, Std.ExtTreeMap.getElem?_insert]

@[simp] theorem visitsAt_record (m : Maze) (p q : Point) (c : Cell) :
    (m.record p c).visitsAt q = m.visitsAt q := rfl

@[simp] theorem cellAt?_visit (m : Maze) (p q : Point) : (m.visit p).cellAt? q = m.cellAt? q := rfl

theorem visitsAt_visit (m : Maze) (p q : Point) :
    (m.visit p).visitsAt q = m.visitsAt q + if p = q then 1 else 0 := by
  simp only [visit, visitsAt, Std.ExtTreeMap.getD_insert, Std.LawfulEqCmp.compare_eq_iff_eq]
  split
  · rename_i same
    rw [same]
  · rfl

theorem isWall_iff {m : Maze} {p : Point} : m.isWall p = true ↔ m.cellAt? p = some .wall := by
  simp [isWall]

theorem isPassable_iff {m : Maze} {p : Point} :
    m.isPassable p = true ↔ ∃ c, m.cellAt? p = some c ∧ c ≠ .wall := by
  unfold isPassable
  cases m.cellAt? p with
  | none => simp
  | some c => cases c <;> simp

theorem isExplored_iff {m : Maze} :
    m.isExplored = true ↔
      ∀ p, m.isPassable p = true → ∀ q ∈ p.neighbours, (m.cellAt? q).isSome = true := by
  simp only [isExplored, List.all_eq_true, Bool.or_eq_true, beq_iff_eq, isPassable_iff, Prod.forall,
    Std.ExtTreeMap.mem_toList_iff_getElem?_eq_some, Std.ExtTreeMap.contains_eq_isSome_getElem?,
    cellAt?]
  constructor
  · rintro h p ⟨c, known, notWall⟩ q next
    exact (h p c known).resolve_left notWall q next
  · intro h p c known
    by_cases wall : c = .wall
    · exact .inl wall
    · exact .inr (h p ⟨c, known, wall⟩)

theorem mem_oxygenSystems {m : Maze} {p : Point} :
    p ∈ m.oxygenSystems ↔ m.cellAt? p = some .oxygen := by
  simp only [oxygenSystems, List.mem_map, List.mem_filter, beq_iff_eq, Prod.exists,
    Std.ExtTreeMap.mem_toList_iff_getElem?_eq_some, cellAt?]
  constructor
  · rintro ⟨q, c, ⟨known, rfl⟩, rfl⟩
    exact known
  · intro h
    exact ⟨p, .oxygen, ⟨h, rfl⟩, rfl⟩

/-- What a scan of some headings has come to: nothing if they all lead to walls, else one that leads
to no wall and to a point that has been visited the least. -/
def Best (m : Maze) (p : Point) (scanned : List Heading) : Option (Heading × Nat) → Prop
  | none => ∀ h ∈ scanned, m.isWall (p + h.step) = true
  | some (h, fewest) =>
    m.isWall (p + h.step) = false ∧ fewest = m.visitsAt (p + h.step) ∧
      ∀ k ∈ scanned, m.isWall (p + k.step) = false → fewest ≤ m.visitsAt (p + k.step)

theorem Best.prefer {m : Maze} {p : Point} {scanned : List Heading}
    {best : Option (Heading × Nat)} (so : Best m p scanned best) (h : Heading) :
    Best m p (scanned ++ [h]) (m.prefer p best h) := by
  unfold Maze.prefer
  cases wall : m.isWall (p + h.step) with
  | true =>
    simp only [wall, if_true]
    cases best with
    | none => exact List.forall_mem_append.mpr ⟨so, by simpa using wall⟩
    | some b =>
      obtain ⟨_, _⟩ := b
      obtain ⟨free, rfl, least⟩ := so
      exact ⟨free, rfl, List.forall_mem_append.mpr ⟨least, by simp [wall]⟩⟩
  | false =>
    simp only [wall, Bool.false_eq_true, if_false]
    cases best with
    | none =>
      refine ⟨wall, rfl, List.forall_mem_append.mpr ⟨fun k mem free => ?_, by simp⟩⟩
      rw [so k mem] at free
      cases free
    | some b =>
      obtain ⟨_, _⟩ := b
      obtain ⟨free, rfl, least⟩ := so
      dsimp only
      split
      · rename_i fewer
        exact ⟨wall, rfl, List.forall_mem_append.mpr
          ⟨fun k mem notWall => fewer.trans (least k mem notWall), by simp⟩⟩
      · rename_i more
        refine ⟨free, rfl, List.forall_mem_append.mpr ⟨least, ?_⟩⟩
        simp only [List.forall_mem_singleton]
        omega

theorem best_foldl (m : Maze) (p : Point) (hs : List Heading) :
    Best m p hs (hs.foldl (m.prefer p) none) := by
  induction hs using List.reverseRecOn with
  | nil => exact nofun
  | append_singleton hs h ih =>
    rw [List.foldl_append]
    exact ih.prefer h

theorem mem_scan (h : Heading) : h ∈ scan := by
  cases h <;> decide

/-- The next heading leads to no known wall, and to a point that has been visited the least. -/
theorem nextHeading_some {m : Maze} {p : Point} {h : Heading} (next : m.nextHeading p = some h) :
    m.isWall (p + h.step) = false ∧
      ∀ k : Heading, m.isWall (p + k.step) = false →
        m.visitsAt (p + h.step) ≤ m.visitsAt (p + k.step) := by
  obtain ⟨⟨h', fewest⟩, found, rfl⟩ := Option.map_eq_some_iff.mp next
  have best := best_foldl m p scan
  rw [found] at best
  obtain ⟨notWall, rfl, least⟩ := best
  exact ⟨notWall, fun k => least k (mem_scan k)⟩

/-- There is no next heading only where walls are all around. -/
theorem nextHeading_none {m : Maze} {p : Point} (next : m.nextHeading p = none) (h : Heading) :
    m.isWall (p + h.step) = true := by
  have best := best_foldl m p scan
  rw [Option.map_eq_none_iff.mp next] at best
  exact best h (mem_scan h)

end Intcode.Droid.Maze
