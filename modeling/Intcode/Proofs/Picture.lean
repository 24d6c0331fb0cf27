import Intcode.Droid.Maze
import Intcode.Hull
import Intcode.Proofs.Chart
import Intcode.Proofs.Text.Blank
import Mathlib.Order.Bounds.Basic

/-!
# Pictures of charts

A picture shows the smallest rectangle around what is known, point by point, and it can be read
again once it is known where its first character stands. The rectangle is found by going over the
known points, and it does not matter in which order.
-/

namespace Intcode

/-- The corners of the smallest rectangle around some points. -/
structure Frames (lo hi : Point) (points : Set Point) : Prop where
  left : IsLeast (Point.x '' points) lo.x
  right : IsGreatest (Point.x '' points) hi.x
  top : IsLeast (Point.y '' points) lo.y
  bottom : IsGreatest (Point.y '' points) hi.y

structure Within (lo hi p : Point) : Prop where
  left : lo.x ≤ p.x
  right : p.x ≤ hi.x
  top : lo.y ≤ p.y
  bottom : p.y ≤ hi.y

def stretch (r : Point × Point) (q : Point) : Point × Point :=
  (⟨min r.1.x q.x, min r.1.y q.y⟩, ⟨max r.2.x q.x, max r.2.y q.y⟩)

namespace Frames

variable {lo hi lo' hi' p : Point} {points : Set Point}

theorem singleton (p : Point) : Frames p p {p} := by
  constructor <;> rw [Set.image_singleton]
  · exact isLeast_singleton
  · exact isGreatest_singleton
  · exact isLeast_singleton
  · exact isGreatest_singleton

theorem insert (frames : Frames lo hi points) (q : Point) :
    Frames (stretch (lo, hi) q).1 (stretch (lo, hi) q).2 (insert q points) := by
  constructor <;> rw [Set.image_insert_eq, stretch] <;> dsimp only
  · rw [min_comm lo.x]
    exact frames.left.insert q.x
  · rw [max_comm hi.x]
    exact frames.right.insert q.x
  · rw [min_comm lo.y]
    exact frames.top.insert q.y
  · rw [max_comm hi.y]
    exact frames.bottom.insert q.y

theorem foldl {r : Point × Point} (frames : Frames r.1 r.2 points) (rest : List Point) :
    Frames (rest.foldl stretch r).1 (rest.foldl stretch r).2 (points ∪ {p | p ∈ rest}) := by
  induction rest generalizing r points with
  | nil =>
    have none : points ∪ {p | p ∈ ([] : List Point)} = points := by simp
    rw [none]
    exact frames
  | cons q rest ih =>
    have more : points ∪ {p | p ∈ q :: rest} = Insert.insert q points ∪ {p | p ∈ rest} := by
      ext p
      simp only [Set.mem_union, Set.mem_insert_iff, Set.mem_ofPred_eq, List.mem_cons]
      tauto
    rw [more]
    exact ih (frames.insert q)

theorem unique (frames : Frames lo hi points) (frames' : Frames lo' hi' points) :
    lo = lo' ∧ hi = hi' := by
  obtain ⟨x, y⟩ := lo
  obtain ⟨x', y'⟩ := lo'
  obtain ⟨z, w⟩ := hi
  obtain ⟨z', w'⟩ := hi'
  obtain rfl : x = x' := frames.left.unique frames'.left
  obtain rfl : y = y' := frames.top.unique frames'.top
  obtain rfl : z = z' := frames.right.unique frames'.right
  obtain rfl : w = w' := frames.bottom.unique frames'.bottom
  exact ⟨rfl, rfl⟩

theorem within (frames : Frames lo hi points) (mem : p ∈ points) : Within lo hi p where
  left := frames.left.2 (Set.mem_image_of_mem _ mem)
  right := frames.right.2 (Set.mem_image_of_mem _ mem)
  top := frames.top.2 (Set.mem_image_of_mem _ mem)
  bottom := frames.bottom.2 (Set.mem_image_of_mem _ mem)

end Frames

/-- The corners that are found by going over some points in the given order. -/
def cornersAlong : List Point → Option (Point × Point)
  | [] => none
  | p :: rest => some (rest.foldl stretch (p, p))

def pictureAlong (ps : List Point) (glyph : Point → Char) : String :=
  match cornersAlong ps with
  | none => ""
  | some (lo, hi) => picture (between lo.x hi.x) (between lo.y hi.y) glyph

theorem frames_along (p : Point) (rest : List Point) :
    Frames (rest.foldl stretch (p, p)).1 (rest.foldl stretch (p, p)).2 {q | q ∈ p :: rest} := by
  have all : {q | q ∈ p :: rest} = {p} ∪ {q | q ∈ rest} := by
    ext q
    simp
  rw [all]
  exact (Frames.singleton p).foldl (r := (p, p)) rest

/-- The corners are those of the points, whatever their order. -/
theorem cornersAlong_congr {ps qs : List Point} (same : ∀ p, p ∈ ps ↔ p ∈ qs) :
    cornersAlong ps = cornersAlong qs := by
  cases ps with
  | nil =>
    have none : qs = [] := List.eq_nil_iff_forall_not_mem.mpr fun p mem => nomatch (same p).mpr mem
    rw [none]
  | cons p ps =>
    cases qs with
    | nil => cases (same p).mp List.mem_cons_self
    | cons q qs =>
      have points : {r | r ∈ p :: ps} = {r | r ∈ q :: qs} := Set.ext same
      have frames := frames_along p ps
      rw [points] at frames
      obtain ⟨lo, hi⟩ := frames.unique (frames_along q qs)
      exact congrArg some (Prod.ext lo hi)

def Text.lines (text : String) : List (List Char) := pieces (· == '\n') text.toList

/-- The character that a text shows for a point, if its first character stands for the corner. -/
def glyphAt? (text : String) (corner p : Point) : Option Char :=
  if corner.x ≤ p.x ∧ corner.y ≤ p.y then
    (Text.lines text)[(p.y - corner.y).toNat]?.bind (·[(p.x - corner.x).toNat]?)
  else none

section Lines

variable {glyph : Point → Char} (clear : ∀ p, glyph p ≠ '\n')
include clear

theorem lines_picture (xs : List Int) {ys : List Int} (some : ys ≠ []) :
    Text.lines (picture xs ys glyph) = ys.map fun y => xs.map fun x => glyph ⟨x, y⟩ := by
  have whole : ∀ line ∈ ys.map fun y => xs.map fun x => glyph ⟨x, y⟩, '\n' ∉ line := by
    intro line mem inside
    obtain ⟨y, -, rfl⟩ := List.mem_map.mp mem
    obtain ⟨x, -, same⟩ := List.mem_map.mp inside
    exact clear ⟨x, y⟩ same
  have parts : (ys.map fun y => String.ofList (xs.map fun x => glyph ⟨x, y⟩)).map String.toList =
      ys.map fun y => xs.map fun x => glyph ⟨x, y⟩ := by
    simp only [List.map_map, Function.comp_def, String.toList_ofList]
  rw [Text.lines, picture, String.toList_intercalate, parts]
  exact Text.pieces_intercalate whole (by simpa using some)

end Lines

theorem length_between (a b : Int) : (between a b).length = (b + 1 - a).toNat := by
  rw [between, List.length_map, List.length_range]

theorem getElem?_between {a b x : Int} (low : a ≤ x) :
    (between a b)[(x - a).toNat]? = if x ≤ b then some x else none := by
  rw [between, List.getElem?_map]
  split
  · rw [List.getElem?_range (by omega), Option.map_some]
    exact congrArg some (by omega)
  · rw [List.getElem?_eq_none (by rw [List.length_range]; omega)]
    rfl

theorem between_ne_nil {a b : Int} (le : a ≤ b) : between a b ≠ [] := by
  rw [ne_eq, ← List.length_eq_zero_iff, length_between]
  omega

/-- A text shows the points of a rectangle, with a line for each `y` and a character for each `x`,
and nothing else. -/
structure Shows (text : String) (lo hi : Point) (glyph : Point → Char) : Prop where
  height : ((Text.lines text).length : Int) = hi.y - lo.y + 1
  width : ∀ line ∈ Text.lines text, (line.length : Int) = hi.x - lo.x + 1
  inside : ∀ p, Within lo hi p → glyphAt? text lo p = some (glyph p)
  outside : ∀ p, ¬Within lo hi p → glyphAt? text lo p = none

theorem shows_picture {lo hi : Point} {glyph : Point → Char} (clear : ∀ p, glyph p ≠ '\n')
    (wide : lo.x ≤ hi.x) (high : lo.y ≤ hi.y) :
    Shows (picture (between lo.x hi.x) (between lo.y hi.y) glyph) lo hi glyph := by
  have lines := lines_picture clear (between lo.x hi.x) (between_ne_nil high)
  refine ⟨?_, ?_, ?_, ?_⟩
  · rw [lines, List.length_map, length_between]
    omega
  · intro line mem
    rw [lines] at mem
    obtain ⟨y, -, rfl⟩ := List.mem_map.mp mem
    rw [List.length_map, length_between]
    omega
  · intro p within
    rw [glyphAt?, if_pos ⟨within.left, within.top⟩, lines, List.getElem?_map,
      getElem?_between within.top, if_pos within.bottom, Option.map_some, Option.bind_some,
      List.getElem?_map, getElem?_between within.left, if_pos within.right, Option.map_some]
  · intro p without
    rw [glyphAt?]
    split
    · rename_i corner
      rw [lines, List.getElem?_map, getElem?_between corner.2]
      split
      · rename_i bottom
        have right : ¬p.x ≤ hi.x := fun right => without ⟨corner.1, right, corner.2, bottom⟩
        rw [Option.map_some, Option.bind_some, List.getElem?_map, getElem?_between corner.1,
          if_neg right, Option.map_none]
      · rfl
    · rfl

/-- A text is a picture of a chart: it shows the smallest rectangle around what is known, in
whatever order that is gone over. -/
structure Depicts {α : Type} (text : String) (c : Chart α) (glyph : Point → Char) (lo hi : Point) :
    Prop where
  frames : Frames lo hi {p | p ∈ c}
  shows : Shows text lo hi glyph
  order : ∀ ps : List Point, (∀ p, p ∈ ps ↔ p ∈ c) → pictureAlong ps glyph = text

namespace Chart

variable {α : Type} {glyph : Point → Char}

theorem picture_eq_pictureAlong (c : Chart α) (glyph : Point → Char) :
    c.picture glyph = pictureAlong c.keys glyph := by
  rw [Chart.picture, corners?, pictureAlong]
  cases c.keys <;> rfl

theorem exists_depicts {c : Chart α} (some : c ≠ ∅) (clear : ∀ p, glyph p ≠ '\n') :
    ∃ lo hi, Depicts (c.picture glyph) c glyph lo hi := by
  have known (p : Point) : p ∈ c.keys ↔ p ∈ c := Std.ExtTreeMap.mem_keys
  have drawn := c.picture_eq_pictureAlong glyph
  cases keys : c.keys with
  | nil => exact absurd (Std.ExtTreeMap.keys_eq_nil_iff.mp keys) some
  | cons p rest =>
    rw [keys] at known drawn
    have frames := frames_along p rest
    have within := frames.within (p := p) List.mem_cons_self
    have points : {q | q ∈ p :: rest} = {q | q ∈ c} := Set.ext known
    refine ⟨_, _, points ▸ frames, ?_, fun ps same => ?_⟩
    · rw [drawn]
      exact shows_picture clear (Int.le_trans within.left within.right)
        (Int.le_trans within.top within.bottom)
    · rw [drawn, pictureAlong, pictureAlong,
        cornersAlong_congr fun q => (same q).trans (known q).symm]

/-- Entries in another order make the same chart if the last one at each point is the same. -/
theorem enter_congr (c : Chart α) {es es' : List (Point × α)}
    (last : ∀ p, latest (said? p) es = latest (said? p) es') : c.enter es = c.enter es' := by
  refine Std.ExtTreeMap.ext_getElem? fun p => ?_
  rw [getElem?_enter, getElem?_enter, last]

end Chart

/-- Of a point that is not shown nothing is known. -/
theorem Depicts.glyphAt?_eq {α : Type} {text : String} {chart : Chart α} {glyph : Point → Char}
    {lo hi : Point} (depicts : Depicts text chart glyph lo hi) (p : Point) :
    glyphAt? text lo p = some (glyph p) ∨ glyphAt? text lo p = none ∧ chart[p]? = none := by
  by_cases within : Within lo hi p
  · exact .inl (depicts.shows.inside p within)
  · refine .inr ⟨depicts.shows.outside p within, Std.ExtTreeMap.getElem?_eq_none fun mem => ?_⟩
    exact within (depicts.frames.within mem)

namespace Hull.Panels

def shownAt (text : String) (corner p : Point) : Color :=
  if glyphAt? text corner p = some '#' then .white else .black

theorem glyph_colorAt (ps : Panels) (p : Point) :
    (ps.colorAt p).glyph = if ps.colorAt p = .white then '#' else '.' := by
  cases ps.colorAt p <;> rfl

theorem shownAt_of_depicts {ps : Panels} {text : String} {lo hi : Point}
    (depicts : Depicts text ps (fun p => if ps.colorAt p = .white then '#' else '.') lo hi)
    (p : Point) : shownAt text lo p = ps.colorAt p := by
  rw [shownAt]
  rcases depicts.glyphAt?_eq p with shown | ⟨hidden, unknown⟩
  · rw [shown]
    cases ps.colorAt p <;> decide
  · rw [hidden, colorAt, Std.ExtTreeMap.getD_eq_getD_getElem?, unknown]
    rfl

end Hull.Panels

namespace Droid.Maze

def sign (m : Maze) (p : Point) : Char :=
  if p = .origin then 'S'
  else
    match m.cellAt? p with
    | some .wall => '#'
    | some .floor => '.'
    | some .oxygen => '$'
    | none => ' '

def shownAt? (text : String) (corner p : Point) : Option Cell :=
  match glyphAt? text corner p with
  | some '#' => some .wall
  | some '.' => some .floor
  | some '$' => some .oxygen
  | _ => none

theorem picture_eq (m : Maze) : m.picture = Chart.picture m.cells m.sign := by
  refine congrArg (Chart.picture m.cells) (funext fun p => ?_)
  rw [sign]
  split
  · rfl
  · rcases m.cellAt? p with _ | _ | _ | _ <;> rfl

theorem shownAt?_of_depicts {m : Maze} {text : String} {lo hi p : Point}
    (depicts : Depicts text m.cells m.sign lo hi) (away : p ≠ .origin) :
    shownAt? text lo p = m.cellAt? p := by
  rw [shownAt?]
  rcases depicts.glyphAt?_eq p with shown | ⟨hidden, unknown⟩
  · rw [shown, sign, if_neg away]
    rcases m.cellAt? p with _ | _ | _ | _ <;> rfl
  · rw [hidden, cellAt?, unknown]

theorem sign_ne_break (m : Maze) (p : Point) : m.sign p ≠ '\n' := by
  rw [sign]
  split
  · decide
  · split <;> decide

end Droid.Maze

/-- Pictures are faithful. The picture of painted panels, if there are any, and the picture of a
maze have a line for each `y` and a character for each `x` from the least to the greatest that is
known. A character tells of its own point only, white panels are `#` and all others are `.`, and
what is known of a place in a maze is said by `sign`. So the colour of every panel can be read from
the text and its corner, and also what is known of every place other than the start. The order in
which the points are gone over makes no difference, nor does the order in which they became known. A
maze knows its start, whatever is recorded. -/
theorem pictures_are_faithful :
    (∀ ps : Hull.Panels, ps ≠ ∅ → ∃ lo hi,
      Depicts ps.picture ps (fun p => if ps.colorAt p = .white then '#' else '.') lo hi ∧
      ∀ p, Hull.Panels.shownAt ps.picture lo p = ps.colorAt p) ∧
    (∀ m : Droid.Maze, m.cells ≠ ∅ → ∃ lo hi,
      Depicts m.picture m.cells m.sign lo hi ∧
      ∀ p, p ≠ .origin → Droid.Maze.shownAt? m.picture lo p = m.cellAt? p) ∧
    (∀ (ps : Hull.Panels) (es es' : List (Point × Hull.Color)),
      (∀ p, latest (Chart.said? p) es = latest (Chart.said? p) es') →
      Hull.Panels.picture (Chart.enter ps es) = Hull.Panels.picture (Chart.enter ps es')) ∧
    (∀ (m : Droid.Maze) (es es' : List (Point × Droid.Cell)),
      (∀ p, latest (Chart.said? p) es = latest (Chart.said? p) es') →
      Droid.Maze.picture { m with cells := m.cells.enter es } =
        Droid.Maze.picture { m with cells := m.cells.enter es' }) ∧
    ∀ es : List (Point × Droid.Cell), Droid.Maze.start.cells.enter es ≠ ∅ := by
  refine ⟨fun ps some => ?_, fun m some => ?_, fun ps es es' last => ?_,
    fun m es es' last => ?_, fun es => ?_⟩
  · have clear : ∀ p, (if ps.colorAt p = .white then '#' else '.') ≠ '\n' := by
      intro p
      split <;> decide
    have drawn :
        ps.picture = Chart.picture ps fun p => if ps.colorAt p = .white then '#' else '.' :=
      congrArg (Chart.picture ps) (funext ps.glyph_colorAt)
    rw [drawn]
    obtain ⟨lo, hi, depicts⟩ := Chart.exists_depicts some clear
    exact ⟨lo, hi, depicts, Hull.Panels.shownAt_of_depicts depicts⟩
  · rw [m.picture_eq]
    obtain ⟨lo, hi, depicts⟩ := Chart.exists_depicts some m.sign_ne_break
    exact ⟨lo, hi, depicts, fun p => Droid.Maze.shownAt?_of_depicts depicts⟩
  · rw [Chart.enter_congr ps last]
  · rw [Chart.enter_congr m.cells last]
  · intro none
    have start : Point.origin ∈ Droid.Maze.start.cells := Std.ExtTreeMap.mem_insert_self
    have kept := (Chart.mem_enter Droid.Maze.start.cells es .origin).mpr (.inl start)
    rw [none] at kept
    exact Std.ExtTreeMap.not_mem_empty kept

namespace Picture

/-- Two panels, one of them with a negative coordinate, and two places on both sides of a start. -/
def panels : List (Point × Hull.Color) := [(⟨-1, 2⟩, .white), (⟨1, 1⟩, .black)]

def places : List (Point × Droid.Cell) := [(⟨-1, 0⟩, .wall), (⟨1, 0⟩, .oxygen)]

theorem sample_pictures_are_faithful :
    let ps : Hull.Panels := Chart.enter ∅ panels
    let m : Droid.Maze := { Droid.Maze.start with cells := Droid.Maze.start.cells.enter places }
    (ps ≠ ∅ ∧ ∃ lo, Hull.Panels.shownAt ps.picture lo ⟨-1, 2⟩ = .white ∧
      Hull.Panels.shownAt ps.picture lo ⟨7, -7⟩ = .black) ∧
    (m.cells ≠ ∅ ∧ ∃ lo, Droid.Maze.shownAt? m.picture lo ⟨1, 0⟩ = some .oxygen ∧
      Droid.Maze.shownAt? m.picture lo ⟨0, 5⟩ = none) ∧
    ((∀ p, latest (Chart.said? p) panels = latest (Chart.said? p) panels.reverse) ∧
      Hull.Panels.picture (Chart.enter ∅ panels) =
        Hull.Panels.picture (Chart.enter ∅ panels.reverse)) ∧
    ((∀ p, latest (Chart.said? p) places = latest (Chart.said? p) places.reverse) ∧
      m.picture = Droid.Maze.picture
        { Droid.Maze.start with cells := Droid.Maze.start.cells.enter places.reverse }) := by
  intro ps m
  obtain ⟨drawn, mapped, painted, recorded, start⟩ := pictures_are_faithful
  have panelsLast : ∀ p, latest (Chart.said? p) panels = latest (Chart.said? p) panels.reverse := by
    intro p
    by_cases white : (⟨-1, 2⟩ : Point) = p
    · subst white
      rfl
    · simp [latest, List.findSome?_cons, Chart.said?, panels, white]
  have placesLast : ∀ p, latest (Chart.said? p) places = latest (Chart.said? p) places.reverse := by
    intro p
    by_cases wall : (⟨-1, 0⟩ : Point) = p
    · subst wall
      rfl
    · simp [latest, List.findSome?_cons, Chart.said?, places, wall]
  have some : ps ≠ ∅ := by decide
  obtain ⟨lo, -, -, colors⟩ := drawn ps some
  obtain ⟨lo', -, -, cells⟩ := mapped m (start places)
  refine ⟨⟨some, lo, (colors _).trans (by decide), (colors _).trans (by decide)⟩,
    ⟨start places, lo', ?_, ?_⟩, ⟨panelsLast, painted ∅ _ _ panelsLast⟩,
    placesLast, recorded _ _ _ placesLast⟩
  · exact (cells ⟨1, 0⟩ (by decide)).trans (by decide)
  · exact (cells ⟨0, 5⟩ (by decide)).trans (by decide)

end Picture

end Intcode
