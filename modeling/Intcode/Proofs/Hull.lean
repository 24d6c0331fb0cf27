import Intcode.Hull
import Intcode.Proofs.Chart
import Intcode.Proofs.Device.Mirror

/-!
# The course of a hull robot

A robot takes the words that it is told two at a time. Where it stands, what it has painted and what
it answers is told here by all the pairs that there have been: the turns alone make its course, and
each pair leaves a stroke where the course has come to.
-/

namespace Intcode.Hull

/-- Two words: the colour for a panel and the turn to make after it. -/
structure Pair where
  paint : Word
  turn : Word
  deriving DecidableEq, Repr

namespace Pair

def ofWords : List Word → List Pair
  | paint :: turn :: rest => ⟨paint, turn⟩ :: ofWords rest
  | [] | [_] => []

def remainder : List Word → List Word
  | _ :: _ :: rest => remainder rest
  | words => words

/-- Zero paints black, all else white. -/
def color (p : Pair) : Color := if p.paint = 0 then .black else .white

/-- A stream is its pairs and at most one word more. -/
theorem words_ofWords (ws : List Word) :
    (ofWords ws).flatMap (fun p => [p.paint, p.turn]) ++ remainder ws = ws ∧
      (remainder ws).length < 2 := by
  fun_induction ofWords ws with
  | case1 paint turn rest ih =>
    rw [remainder, List.flatMap_cons, List.append_assoc, ih.1]
    exact ⟨rfl, ih.2⟩
  | case2 | case3 => exact ⟨rfl, by simp [remainder]⟩

end Pair

theorem Color.ofWord_fst (w turn : Word) : (ofWord w).1 = (Pair.mk w turn).color := by
  rw [Pair.color, ofWord]
  split
  · rfl
  · split <;> rfl

/-- A place, and what one step ahead adds to its coordinates. -/
structure Pose where
  position : Point := ⟨0, 0⟩
  dx : Int := 0
  dy : Int := -1

namespace Pose

def left (q : Pose) : Pose := { q with dx := q.dy, dy := -q.dx }

def right (q : Pose) : Pose := { q with dx := -q.dy, dy := q.dx }

def ahead (q : Pose) : Pose := { q with position := ⟨q.position.x + q.dx, q.position.y + q.dy⟩ }

/-- A quarter turn, to the left for zero and to the right for all else. -/
def turned (q : Pose) (turn : Word) : Pose := if turn = 0 then q.left else q.right

def next (q : Pose) (turn : Word) : Pose := (q.turned turn).ahead

/-- The way ahead is the one that a heading is named for. -/
def Faces (q : Pose) : Heading → Prop
  | .north => q.dx = 0 ∧ q.dy = -1
  | .east => q.dx = 1 ∧ q.dy = 0
  | .south => q.dx = 0 ∧ q.dy = 1
  | .west => q.dx = -1 ∧ q.dy = 0

instance (q : Pose) : DecidablePred q.Faces
  | .north | .east | .south | .west => inferInstanceAs (Decidable (_ ∧ _))

namespace Faces

variable {q : Pose} {h h' : Heading}

theorem unique (faces : q.Faces h) (faces' : q.Faces h') : h = h' := by
  cases h <;> cases h' <;> simp only [Faces] at faces faces' <;> first | rfl | omega

theorem left (faces : q.Faces h) : q.left.Faces h.left := by
  cases h <;> simp only [Faces, Pose.left, Heading.left] at faces ⊢ <;> omega

theorem right (faces : q.Faces h) : q.right.Faces h.right := by
  cases h <;> simp only [Faces, Pose.right, Heading.right] at faces ⊢ <;> omega

theorem turned (faces : q.Faces h) (turn : Word) :
    (q.turned turn).Faces (if turn = 0 then h.left else h.right) := by
  rw [Pose.turned]
  split
  · exact faces.left
  · exact faces.right

/-- A step ahead is the step of the heading. -/
theorem step (faces : q.Faces h) : q.ahead.position = q.position + h.step := by
  cases h <;> simp only [Faces, Pose.ahead, Heading.step, Point.add_eq] at faces ⊢ <;>
    rw [faces.1, faces.2]

end Faces

end Pose

def pose (ps : List Pair) : Pose := ps.foldl (fun q p => q.next p.turn) {}

/-- The place that the first pairs have led to, so many of them. -/
def place (ps : List Pair) (i : Nat) : Point := (pose (ps.take i)).position

/-- What some pairs paint, first things first: each the panel that those before it have led to. -/
def strokes (ps : List Pair) : List (Point × Color) :=
  ps.zipIdx.map fun e => (place ps e.2, e.1.color)

/-- The colour that was painted last at a place, or else the one that was there from the start. -/
def lastColor (start : Panels) (ps : List Pair) (p : Point) : Option Color :=
  (latest (Chart.said? p) (strokes ps)).or start[p]?

def bearing (ps : List Pair) : Heading :=
  ps.foldl (fun h p => if p.turn = 0 then h.left else h.right) .north

def Robot.ofPairs (start : Panels) (ps : List Pair) : Robot :=
  { panels := start.enter (strokes ps)
    position := (pose ps).position
    heading := bearing ps }

section Concat

variable (ps : List Pair) (p : Pair)

theorem pose_concat : pose (ps ++ [p]) = (pose ps).next p.turn := by
  simp only [pose, List.foldl_append, List.foldl_cons, List.foldl_nil]

theorem bearing_concat :
    bearing (ps ++ [p]) = if p.turn = 0 then (bearing ps).left else (bearing ps).right := by
  simp only [bearing, List.foldl_append, List.foldl_cons, List.foldl_nil]

theorem strokes_concat : strokes (ps ++ [p]) = strokes ps ++ [((pose ps).position, p.color)] := by
  have last : place (ps ++ [p]) ps.length = (pose ps).position := by
    rw [place, List.take_left]
  have first : ∀ e ∈ ps.zipIdx, (place (ps ++ [p]) e.2, e.1.color) = (place ps e.2, e.1.color) := by
    intro e mem
    have inside := (List.mem_zipIdx' mem).1
    rw [place, List.take_append_of_le_length (Nat.le_of_lt inside), place]
  rw [strokes, List.zipIdx_append, List.map_append, List.map_congr_left first, Nat.zero_add,
    List.zipIdx_singleton, List.map_singleton, last, strokes]

theorem faces_bearing : (pose ps).Faces (bearing ps) := by
  induction ps using List.reverseRecOn with
  | nil => exact ⟨rfl, rfl⟩
  | append_singleton ps p ih =>
    rw [pose_concat, bearing_concat]
    exact ih.turned p.turn

theorem position_concat :
    (pose (ps ++ [p])).position = (pose ps).position + (bearing (ps ++ [p])).step := by
  have turned : ((pose ps).turned p.turn).position = (pose ps).position := by
    rw [Pose.turned]
    split <;> rfl
  rw [pose_concat, bearing_concat, Pose.next, ((faces_bearing ps).turned p.turn).step, turned]

/-- The panels under the strokes are the places up to the last pair. -/
theorem exists_stroke_iff {q : Point} :
    (∃ e ∈ strokes ps, e.1 = q) ↔ ∃ i < ps.length, place ps i = q := by
  constructor
  · rintro ⟨e, mem, rfl⟩
    obtain ⟨⟨p, i⟩, inside, rfl⟩ := List.mem_map.mp mem
    exact ⟨i, (List.mem_zipIdx' inside).1, rfl⟩
  · rintro ⟨i, inside, rfl⟩
    refine ⟨_, List.mem_map.mpr ⟨(ps[i], i), ?_, rfl⟩, rfl⟩
    exact List.mem_zipIdx_iff_getElem?.mpr (List.getElem?_eq_getElem inside)

end Concat

namespace Robot

variable (start : Panels) (ps : List Pair)

def told (r : Robot) (p : Pair) : Robot := r.move p.color p.turn

theorem told_ofPairs (p : Pair) : (ofPairs start ps).told p = ofPairs start (ps ++ [p]) := by
  simp only [told, move, ofPairs, strokes_concat, position_concat, bearing_concat,
    Chart.enter_concat]

theorem foldl_told : ps.foldl told { panels := start } = ofPairs start ps := by
  induction ps using List.reverseRecOn with
  | nil => rfl
  | append_singleton ps p ih =>
    rw [List.foldl_append, ih, List.foldl_cons, told_ofPairs]
    rfl

theorem getElem?_ofPairs (p : Point) : (ofPairs start ps).panels[p]? = lastColor start ps p :=
  start.getElem?_enter (strokes ps) p

theorem encard_painted : {p | p ∈ start ∨ ∃ i < ps.length, place ps i = p}.encard =
    (ofPairs start ps).panels.size := by
  rw [← Chart.encard_size]
  simp only [ofPairs, Chart.mem_enter, exists_stroke_iff]

end Robot

def Robot.hold (r : Robot) (paint : Word) : Robot := { r with color := some (Color.ofWord paint).1 }

theorem respond_of_idle {r : Robot} (idle : r.color = none) (w : Word) : Device.respond r w =
    { device := r.hold w, answer := .silent, warnings := (Color.ofWord w).2 } := by
  simp only [Device.respond, idle]
  rfl

def Robot.sight (r : Robot) : Word := (r.panels.colorAt r.position).word

theorem respond_hold (r : Robot) (paint turn : Word) : Device.respond (r.hold paint) turn =
    { device := r.told ⟨paint, turn⟩, answer := .reply (r.told ⟨paint, turn⟩).sight } := by
  rw [Robot.told, ← Color.ofWord_fst]
  rfl

/-- A robot that holds no colour has carried out the complete pairs and holds the word behind
them. -/
theorem after_eq (r : Robot) (idle : r.color = none) (ws : List Word) : Device.after r ws =
    (Pair.remainder ws).foldl Robot.hold ((Pair.ofWords ws).foldl Robot.told r) := by
  fun_induction Pair.ofWords ws generalizing r with
  | case1 paint turn rest ih =>
    have second : Device.after r (paint :: turn :: rest) =
        Device.after (Device.respond (Device.respond r paint).device turn).device rest := rfl
    rw [second, respond_of_idle idle, respond_hold, ih _ rfl]
    rfl
  | case2 => rfl
  | case3 paint => exact congrArg Response.device (respond_of_idle idle paint)

theorem after_fresh (start : Panels) (ws : List Word) :
    Device.after ({ panels := start } : Robot) ws =
      (Pair.remainder ws).foldl Robot.hold (Robot.ofPairs start (Pair.ofWords ws)) := by
  rw [after_eq _ rfl, Robot.foldl_told]

structure Follows (start : Panels) (ps : List Pair) (r : Robot) : Prop where
  /-- Each panel has the colour that it was painted last, or that it had from the start. -/
  panels : ∀ p, r.panels[p]? = lastColor start ps p
  /-- As many panels count as painted as were so from the start or have been stood on and left. -/
  painted : {p | p ∈ start ∨ ∃ i < ps.length, place ps i = p}.encard = r.panels.size
  position : r.position = (pose ps).position
  heading : (pose ps).Faces r.heading

theorem follows_ofPairs (start : Panels) (ps : List Pair) :
    Follows start ps (Robot.ofPairs start ps) where
  panels := Robot.getElem?_ofPairs start ps
  painted := Robot.encard_painted start ps
  position := rfl
  heading := faces_bearing ps

/-- A word that is held back is not to be seen. -/
theorem follows_foldl_hold (start : Panels) (ps : List Pair) (ws : List Word) :
    Follows start ps (ws.foldl Robot.hold (Robot.ofPairs start ps)) := by
  refine List.foldlRecOn ws Robot.hold (follows_ofPairs start ps) fun r follows w _ => ?_
  exact ⟨follows.panels, follows.painted, follows.position, follows.heading⟩

def seen (start : Panels) (ps : List Pair) : Word :=
  if lastColor start ps (pose ps).position = some .white then 1 else 0

theorem sight_ofPairs (start : Panels) (ps : List Pair) :
    (Robot.ofPairs start ps).sight = seen start ps := by
  have here : (Robot.ofPairs start ps).position = (pose ps).position := rfl
  rw [Robot.sight, Panels.colorAt, Std.ExtTreeMap.getD_eq_getD_getElem?, Robot.getElem?_ofPairs,
    here, seen]
  rcases lastColor start ps (pose ps).position with _ | _ | _ <;> rfl

/-- Where a robot is, what it has painted and what it answers is told by the words that it has been
told, cut into pairs from the first one on. The second word of a pair, and no other, is answered,
with the colour that the panel ahead was painted last. The first word of a pair moves nothing and
paints nothing. -/
theorem follows_commands (start : Panels) (ws : List Word) :
    let r := Device.after ({ panels := start } : Robot) ws
    let ps := Pair.ofWords ws
    ws = ps.flatMap (fun p => [p.paint, p.turn]) ++ Pair.remainder ws ∧
    (Pair.remainder ws).length < 2 ∧
    Follows start ps r ∧
    ∀ w,
      (∀ v, (Device.respond r w).answer = .reply v ↔
        ∃ p : Pair, Pair.remainder ws = [p.paint] ∧ p.turn = w ∧ v = seen start (ps ++ [p])) ∧
      (Device.respond r w).answer ≠ .crash ∧
      (Pair.remainder ws = [] →
        (Device.respond r w).device.panels = r.panels ∧
        (Device.respond r w).device.position = r.position ∧
        (Device.respond r w).device.heading = r.heading) := by
  intro r ps
  obtain ⟨cut, most⟩ := Pair.words_ofWords ws
  have state : r = (Pair.remainder ws).foldl Robot.hold (Robot.ofPairs start ps) :=
    after_fresh start ws
  refine ⟨cut.symm, most, ?_, fun w => ?_⟩
  · rw [state]
    exact follows_foldl_hold start ps _
  cases held : Pair.remainder ws with
  | nil =>
    have idle : r.color = none := by
      rw [state, held]
      rfl
    rw [respond_of_idle idle]
    exact ⟨fun v => iff_of_false nofun nofun, nofun, fun _ => ⟨rfl, rfl, rfl⟩⟩
  | cons paint more =>
    rw [held, List.length_cons] at most
    obtain rfl := List.length_eq_zero_iff.mp (by omega : more.length = 0)
    have second : Device.respond r w = Device.respond ((Robot.ofPairs start ps).hold paint) w := by
      rw [state, held]
      rfl
    rw [second, respond_hold, Robot.told_ofPairs, sight_ofPairs]
    refine ⟨fun v => ?_, nofun, nofun⟩
    constructor
    · intro answered
      cases answered
      exact ⟨⟨paint, w⟩, rfl, rfl, rfl⟩
    · rintro ⟨⟨paint', turn'⟩, same, rfl, rfl⟩
      cases same
      rfl

/-- A turn to the left and three to the right, round a square and back to the origin, and one word
more. -/
def round : List Word := [1, 0, 0, 1, 5, 2, 1, -1, 0]

/-- At the end of the round the robot sees the panel that it has painted first. The one to the left
of it was white before the robot came there and is black now. -/
theorem round_follows_commands :
    let start : Panels := (∅ : Panels).insert ⟨-1, 0⟩ .white
    let returning := Device.after ({ panels := start } : Robot) (round.take 7)
    let back := Device.after ({ panels := start } : Robot) (round.take 8)
    (Device.respond returning (-1)).answer = .reply 1 ∧
      back.panels[(⟨-1, 0⟩ : Point)]? = some .black ∧
      back.position = .origin ∧ back.heading = .south ∧
      Pair.remainder (round.take 8) = [] ∧
      (Device.respond back 0).device.panels = back.panels ∧
      (Device.respond back 0).device.position = back.position ∧
      (Device.respond back 0).device.heading = back.heading := by
  intro start returning back
  obtain ⟨-, -, -, answers⟩ := follows_commands start (round.take 7)
  obtain ⟨-, -, follows, unpaired⟩ := follows_commands start (round.take 8)
  have complete : Pair.remainder (round.take 8) = [] := by decide
  refine ⟨((answers (-1)).1 1).mpr ⟨⟨1, -1⟩, by decide, rfl, by decide⟩, ?_, ?_, ?_, complete,
    (unpaired 0).2.2 complete⟩
  · exact (follows.panels ⟨-1, 0⟩).trans (by decide)
  · exact follows.position.trans (by decide)
  · exact follows.heading.unique (by decide)

end Intcode.Hull
