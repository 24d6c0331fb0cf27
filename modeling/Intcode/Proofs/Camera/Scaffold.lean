import Intcode.Camera
import Mathlib.Algebra.BigOperators.Group.Finset.Basic

/-!
# Where scaffolds cross

The characters of a picture are listed row by row, and each point of the plane at which there is one
occurs once. So what is searched for among them, the crossings and the robot, is found wherever it
is, also if the rows have different lengths.
-/

namespace Intcode

/-- Whether a point is read before another one: in a row above, or in the same row to the left. -/
def Point.Before (p q : Point) : Prop := p.y < q.y ∨ p.y = q.y ∧ p.x < q.x

theorem Point.Before.asymm {p q : Point} (before : p.Before q) : ¬q.Before p := by
  unfold Point.Before at *
  omega

/-- What is found first in a list that is in order. -/
theorem findSome?_eq_some_iff_of_pairwise {α β : Type} {before : α → α → Prop} {find : α → Option β}
    {l : List α} {b : β} (asymm : ∀ {x y}, before x y → ¬before y x) (ordered : l.Pairwise before) :
    l.findSome? find = some b ↔
      ∃ a ∈ l, find a = some b ∧ ∀ c ∈ l, before c a → find c = none := by
  constructor
  · intro found
    obtain ⟨front, a, back, rfl, here, none⟩ := List.findSome?_eq_some_iff.mp found
    refine ⟨a, List.mem_append_right _ List.mem_cons_self, here, fun c mem earlier => ?_⟩
    obtain ⟨-, later, -⟩ := List.pairwise_append.mp ordered
    rcases List.mem_append.mp mem with inside | inside
    · exact none c inside
    · rcases List.mem_cons.mp inside with rfl | inside
      · exact absurd earlier (asymm earlier)
      · exact absurd earlier (asymm (List.rel_of_pairwise_cons later inside))
  · rintro ⟨a, mem, here, none⟩
    obtain ⟨front, back, rfl⟩ := List.append_of_mem mem
    obtain ⟨-, -, across⟩ := List.pairwise_append.mp ordered
    refine List.findSome?_eq_some_iff.mpr ⟨front, a, back, rfl, here, fun c inside => ?_⟩
    exact none c (List.mem_append_left _ inside) (across c inside a List.mem_cons_self)

namespace Camera.View

variable (v : View)

theorem at?_natCast (x y : Nat) : v.at? ⟨x, y⟩ = (v.rows[y]?).bind (·[x]?) := by
  rw [at?, if_neg (by simp)]
  rfl

theorem exists_natCast_of_at? {p : Point} {c : Char} (shown : v.at? p = some c) :
    ∃ x y : Nat, p = ⟨x, y⟩ := by
  unfold at? at shown
  split at shown
  · cases shown
  · obtain ⟨x, y⟩ := p
    refine ⟨x.toNat, y.toNat, ?_⟩
    rw [Point.mk.injEq]
    simp only at *
    omega

/-- The cells are the points at which there is a character, each with its character. -/
theorem mem_cells_iff {p : Point} {c : Char} : (p, c) ∈ v.cells ↔ v.at? p = some c := by
  constructor
  · intro mem
    obtain ⟨⟨row, y⟩, line, mem⟩ := List.mem_flatMap.mp mem
    obtain ⟨⟨d, x⟩, inside, same⟩ := List.mem_map.mp mem
    obtain ⟨rfl, rfl⟩ := Prod.mk_inj.mp same
    rw [at?_natCast, List.mem_zipIdx_iff_getElem?.mp line]
    exact List.mem_zipIdx_iff_getElem?.mp inside
  · intro shown
    obtain ⟨x, y, rfl⟩ := v.exists_natCast_of_at? shown
    rw [at?_natCast] at shown
    obtain ⟨row, line, inside⟩ := Option.bind_eq_some_iff.mp shown
    refine List.mem_flatMap.mpr ⟨(row, y), List.mem_zipIdx_iff_getElem?.mpr line, ?_⟩
    exact List.mem_map.mpr ⟨(c, x), List.mem_zipIdx_iff_getElem?.mpr inside, rfl⟩

theorem pairwise_zipIdx {α : Type} (l : List α) : l.zipIdx.Pairwise (·.2 < ·.2) := by
  refine List.pairwise_map.mp ?_
  rw [List.zipIdx_map_snd]
  exact List.pairwise_lt_range'

/-- They are listed row by row. -/
theorem pairwise_cells : v.cells.Pairwise (·.1.Before ·.1) := by
  refine List.pairwise_flatMap.mpr ⟨fun (row, y) _ => ?_, ?_⟩
  · refine List.pairwise_map.mpr ((pairwise_zipIdx row).imp fun {a b} left => .inr ⟨rfl, ?_⟩)
    exact Int.ofNat_lt.mpr left
  · refine (pairwise_zipIdx v.rows).imp fun {a b} above p inside q below => .inl ?_
    obtain ⟨-, -, rfl⟩ := List.mem_map.mp inside
    obtain ⟨-, -, rfl⟩ := List.mem_map.mp below
    exact Int.ofNat_lt.mpr above

def arrow : Heading → Char
  | .north => '^'
  | .east => '>'
  | .south => 'v'
  | .west => '<'

theorem heading?_eq_some_iff {c : Char} {h : Heading} : heading? c = some h ↔ c = arrow h := by
  constructor
  · intro shows
    unfold heading? at shows
    split at shows <;> cases shows <;> rfl
  · rintro rfl
    cases h <;> rfl

/-- There is a scaffold where one shows, and under the robot. -/
theorem isScaffold_iff {p : Point} : v.isScaffold p = true ↔
    v.at? p = some '#' ∨ ∃ h, v.at? p = some (arrow h) := by
  unfold isScaffold
  cases v.at? p with
  | none => simp
  | some c =>
    simp only [List.contains_iff_mem, Option.some.injEq]
    constructor
    · intro mem
      simp only [List.mem_cons, List.not_mem_nil, or_false] at mem
      rcases mem with plain | rfl | rfl | rfl | rfl
      · exact .inl plain
      · exact .inr ⟨.north, rfl⟩
      · exact .inr ⟨.south, rfl⟩
      · exact .inr ⟨.west, rfl⟩
      · exact .inr ⟨.east, rfl⟩
    · rintro (rfl | ⟨h, rfl⟩)
      · decide
      · cases h <;> decide

/-- A scaffold with a scaffold on each of its four sides. -/
def Crosses (p : Point) : Prop :=
  v.isScaffold p = true ∧ ∀ h : Heading, v.isScaffold (p + h.step) = true

theorem exists_at?_of_isScaffold {p : Point} (scaffold : v.isScaffold p = true) :
    ∃ c, v.at? p = some c := by
  rcases v.isScaffold_iff.mp scaffold with shown | ⟨h, shown⟩
  · exact ⟨_, shown⟩
  · exact ⟨_, shown⟩

theorem mem_intersections_iff {p : Point} : p ∈ v.intersections ↔ v.Crosses p := by
  have sides : p.neighbours.all v.isScaffold = true ↔
      ∀ h : Heading, v.isScaffold (p + h.step) = true := by
    simp only [Point.neighbours, List.all_map, List.all_eq_true, Function.comp_apply]
    exact ⟨fun all h => all h (by cases h <;> decide), fun all h _ => all h⟩
  rw [intersections, List.mem_filter, Bool.and_eq_true, sides]
  refine and_iff_right_of_imp fun crosses => ?_
  obtain ⟨c, shown⟩ := v.exists_at?_of_isScaffold crosses.1
  exact List.mem_map.mpr ⟨(p, c), v.mem_cells_iff.mpr shown, rfl⟩

theorem pairwise_intersections : v.intersections.Pairwise Point.Before :=
  (List.pairwise_map.mpr v.pairwise_cells).filter _

theorem nodup_intersections : v.intersections.Nodup :=
  v.pairwise_intersections.imp fun {p q} before (same : p = q) => before.asymm (same ▸ before)

theorem inside_of_isScaffold {p : Point} (scaffold : v.isScaffold p = true) :
    0 ≤ p.x ∧ 0 ≤ p.y ∧ p.y < v.rows.length := by
  obtain ⟨c, shown⟩ := v.exists_at?_of_isScaffold scaffold
  obtain ⟨x, y, rfl⟩ := v.exists_natCast_of_at? shown
  rw [at?_natCast] at shown
  obtain ⟨row, line, -⟩ := Option.bind_eq_some_iff.mp shown
  obtain ⟨below, -⟩ := List.getElem?_eq_some_iff.mp line
  dsimp only
  omega

/-- No scaffold crosses another in the first row, in the last one or in the first column. -/
theorem Crosses.inside {v : View} {p : Point} (crosses : v.Crosses p) :
    0 < p.x ∧ 0 < p.y ∧ p.y + 1 < v.rows.length := by
  have above := v.inside_of_isScaffold (crosses.2 .north)
  have below := v.inside_of_isScaffold (crosses.2 .south)
  have left := v.inside_of_isScaffold (crosses.2 .west)
  simp only [Point.add_eq, Heading.step] at above below left
  omega

theorem alignment_eq_sum : v.alignment = ∑ p ∈ v.intersections.toFinset, p.x * p.y := by
  rw [List.sum_toFinset _ v.nodup_intersections, alignment, List.sum_eq_foldl, List.foldl_map]

def robotAt? (e : Point × Char) : Option (Point × Heading) := (heading? e.2).map (e.1, ·)

theorem robotAt?_eq_some_iff {e : Point × Char} {p : Point} {h : Heading} :
    robotAt? e = some (p, h) ↔ e = (p, arrow h) := by
  obtain ⟨q, c⟩ := e
  simp only [robotAt?, Option.map_eq_some_iff, heading?_eq_some_iff, Prod.mk_inj]
  constructor
  · rintro ⟨k, rfl, rfl, rfl⟩
    exact ⟨rfl, rfl⟩
  · rintro ⟨rfl, rfl⟩
    exact ⟨h, rfl, rfl, rfl⟩

theorem robotAt?_eq_none_iff {e : Point × Char} : robotAt? e = none ↔ ∀ k, e.2 ≠ arrow k := by
  rw [robotAt?, Option.map_eq_none_iff]
  simp only [Option.eq_none_iff_forall_ne_some, ne_eq, heading?_eq_some_iff]

/-- The robot is the first character that shows one. -/
theorem robot_eq_some_iff {p : Point} {h : Heading} : v.robot = some (p, h) ↔
    v.at? p = some (arrow h) ∧ ∀ q k, q.Before p → v.at? q ≠ some (arrow k) := by
  have search : v.robot = v.cells.findSome? robotAt? := rfl
  rw [search, findSome?_eq_some_iff_of_pairwise Point.Before.asymm v.pairwise_cells]
  constructor
  · rintro ⟨e, mem, here, none⟩
    obtain rfl := robotAt?_eq_some_iff.mp here
    refine ⟨v.mem_cells_iff.mp mem, fun q k before shown => ?_⟩
    exact robotAt?_eq_none_iff.mp (none (q, arrow k) (v.mem_cells_iff.mpr shown) before) k rfl
  · rintro ⟨shown, none⟩
    refine ⟨(p, arrow h), v.mem_cells_iff.mpr shown, robotAt?_eq_some_iff.mpr rfl, ?_⟩
    rintro ⟨q, c⟩ mem before
    refine robotAt?_eq_none_iff.mpr fun k same => none q k before ?_
    rw [← same]
    exact v.mem_cells_iff.mp mem

theorem robot_eq_none_iff : v.robot = none ↔ ∀ q k, v.at? q ≠ some (arrow k) := by
  have search : v.robot = v.cells.findSome? robotAt? := rfl
  simp only [search, List.findSome?_eq_none_iff, robotAt?_eq_none_iff]
  constructor
  · exact fun none q k shown => none (q, arrow k) (v.mem_cells_iff.mpr shown) k rfl
  · rintro none ⟨q, c⟩ mem k same
    refine none q k ?_
    rw [← same]
    exact v.mem_cells_iff.mp mem

/-- Crossings are found exactly, and so is the robot. The crossings are listed row by row and each
once: all points of the plane where a scaffold has a scaffold on its four sides, none of which is in
the first row, in the last one or in the first column. The alignment is the sum over all of them as
an integer; a sum in 64 bits is the same as long as it fits. The robot is the first character in the
picture that shows one. -/
theorem crossings_are_found_exactly :
    (∀ p, v.isScaffold p = true ↔ v.at? p = some '#' ∨ ∃ h, v.at? p = some (arrow h)) ∧
    (∀ p, p ∈ v.intersections ↔ v.Crosses p) ∧
    v.intersections.Pairwise Point.Before ∧ v.intersections.Nodup ∧
    (∀ p ∈ v.intersections, 0 < p.x ∧ 0 < p.y ∧ p.y + 1 < v.rows.length) ∧
    (∃ s : Finset Point, (∀ p, p ∈ s ↔ v.Crosses p) ∧ v.alignment = ∑ p ∈ s, p.x * p.y) ∧
    (∀ p h, v.robot = some (p, h) ↔
      v.at? p = some (arrow h) ∧ ∀ q k, q.Before p → v.at? q ≠ some (arrow k)) ∧
    (v.robot = none ↔ ∀ q k, v.at? q ≠ some (arrow k)) := by
  refine ⟨fun p => v.isScaffold_iff, fun p => v.mem_intersections_iff, v.pairwise_intersections,
    v.nodup_intersections, fun p mem => (v.mem_intersections_iff.mp mem).inside, ?_,
    fun p h => v.robot_eq_some_iff, v.robot_eq_none_iff⟩
  refine ⟨v.intersections.toFinset, fun p => ?_, v.alignment_eq_sum⟩
  rw [List.mem_toFinset, mem_intersections_iff]

/-- Rows of different lengths, with a robot at the end of one of them. -/
def ragged : View := ofOutput (encodeLine ".#\n###<\n.#^\n.#".toList)

/-- There is a crossing, and next to it a scaffold with nothing above. Before the robot no other one
shows, though one does after it. -/
theorem ragged_crossings_are_found :
    ragged.Crosses ⟨1, 1⟩ ∧ ¬ragged.Crosses ⟨2, 1⟩ ∧
      (⟨1, 1⟩ ∈ ragged.intersections ∧ (1 : Int) + 1 < ragged.rows.length) ∧
      (∃ s : Finset Point, (∀ p, p ∈ s ↔ ragged.Crosses p) ∧ 1 = ∑ p ∈ s, p.x * p.y) ∧
      (ragged.robot = some (⟨3, 1⟩, .west) ∧
        ∀ q k, q.Before ⟨3, 1⟩ → ragged.at? q ≠ some (arrow k)) := by
  obtain ⟨-, exact, -, -, inside, sum, robot, -⟩ := crossings_are_found_exactly ragged
  have found : ⟨1, 1⟩ ∈ ragged.intersections := by decide
  have missed : ⟨2, 1⟩ ∉ ragged.intersections := by decide
  have first : ragged.robot = some (⟨3, 1⟩, .west) := by decide
  have one : ragged.alignment = 1 := by decide
  rw [one] at sum
  exact ⟨(exact _).mp found, fun crosses => missed ((exact _).mpr crosses),
    ⟨found, (inside _ found).2.2⟩, sum, first, ((robot _ _).mp first).2⟩

end Camera.View

end Intcode
