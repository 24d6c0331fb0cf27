import Intcode.Arcade
import Intcode.Proofs.Chart
import Intcode.Proofs.Device.Mirror

/-!
# What a cabinet has been told

A cabinet cuts the words that it is told into triples and draws each of them as it is complete. What
its screen shows, and what it answers, is told here by all the triples that there have been and with
no state: at each place stands what was drawn there last.
-/

namespace Intcode.Arcade

namespace Tile

def word : Tile → Word
  | empty => 0
  | wall => 1
  | block => 2
  | paddle => 3
  | ball => 4

def named? (w : Word) : Option Tile := [empty, wall, block, paddle, ball].find? (·.word = w)

theorem named?_eq_some_iff {w : Word} {t : Tile} : named? w = some t ↔ w = t.word := by
  constructor
  · intro found
    have same := List.find?_some found
    exact (of_decide_eq_true same).symm
  · rintro rfl
    cases t <;> decide

theorem ofWord?_eq_some_iff {w : Word} {t : Tile} : ofWord? w = some t ↔ w = t.word := by
  constructor
  · intro read
    unfold ofWord? at read
    split at read <;> cases read <;> rename_i number <;>
      exact Int64.toInt_inj.mp (Word.toNat?_eq_some_iff.mp number)
  · rintro rfl
    cases t <;> decide

theorem ofWord?_eq_named? (w : Word) : ofWord? w = named? w := by
  ext t
  rw [ofWord?_eq_some_iff, named?_eq_some_iff]

end Tile

/-- Three words: a place and the tile to draw there, or a score. -/
structure Triple where
  x : Word
  y : Word
  id : Word
  deriving DecidableEq, Repr

namespace Triple

def ofWords : List Word → List Triple
  | x :: y :: id :: rest => ⟨x, y, id⟩ :: ofWords rest
  | [] | [_] | [_, _] => []

def remainder : List Word → List Word
  | _ :: _ :: _ :: rest => remainder rest
  | words => words

/-- The place -1, 0 is none on the screen but stands for the score. -/
def isScore (t : Triple) : Bool := t.x = -1 ∧ t.y = 0

def score? (t : Triple) : Option Word := if t.isScore then some t.id else none

/-- What is drawn, and where. Nothing is if the last word stands for no tile. -/
def drawing? (t : Triple) : Option (Point × Tile) :=
  if t.isScore then none else (Tile.named? t.id).map (⟨t.x.toInt, t.y.toInt⟩, ·)

/-- A triple that draws the ball or the paddle. -/
def Moves (t : Triple) : Prop :=
  t.isScore = false ∧ (t.id = Tile.ball.word ∨ t.id = Tile.paddle.word)

instance (t : Triple) : Decidable t.Moves := inferInstanceAs (Decidable (_ ∧ _))

end Triple

/-- What some triples draw, first things first. -/
def drawings (ts : List Triple) : List (Point × Tile) := ts.filterMap Triple.drawing?

/-- Where an entry draws a tile of a kind. -/
def placed? (kind : Tile) (e : Point × Tile) : Option Point := if e.2 = kind then some e.1 else none

def lastTile (ts : List Triple) (p : Point) : Option Tile := latest (Chart.said? p) (drawings ts)

def lastPlace (ts : List Triple) (kind : Tile) : Option Point := latest (placed? kind) (drawings ts)

def lastScore (ts : List Triple) : Word := (latest Triple.score? ts).getD 0

def Screen.ofTriples (ts : List Triple) : Screen :=
  { tiles := Chart.enter ∅ (drawings ts)
    score := lastScore ts
    ball := lastPlace ts .ball
    paddle := lastPlace ts .paddle }

section Concat

variable {t : Triple} {p : Point} {tile : Tile} (ts : List Triple)

theorem drawings_concat (drawn : t.drawing? = some (p, tile)) :
    drawings (ts ++ [t]) = drawings ts ++ [(p, tile)] := by
  rw [drawings, List.filterMap_append, List.filterMap_cons_some drawn]
  rfl

theorem drawings_concat_of_none (blank : t.drawing? = none) :
    drawings (ts ++ [t]) = drawings ts := by
  rw [drawings, List.filterMap_append, List.filterMap_cons_none blank, List.filterMap_nil,
    List.append_nil]
  rfl

theorem lastPlace_concat (drawn : t.drawing? = some (p, tile)) (kind : Tile) :
    lastPlace (ts ++ [t]) kind = if tile = kind then some p else lastPlace ts kind := by
  rw [lastPlace, drawings_concat ts drawn, latest_concat, placed?]
  split <;> rfl

theorem lastScore_concat (ts : List Triple) (t : Triple) :
    lastScore (ts ++ [t]) = if t.isScore then t.id else lastScore ts := by
  rw [lastScore, latest_concat, Triple.score?]
  split <;> rfl

end Concat

namespace Triple

variable {t : Triple} {p : Point} {tile : Tile}

theorem drawing?_of_isScore (score : t.isScore = true) : t.drawing? = none := if_pos score

theorem drawing?_of_unknown (unknown : Tile.named? t.id = none) : t.drawing? = none := by
  rw [drawing?, unknown, Option.map_none, ite_self]

theorem drawing?_eq_some_iff : t.drawing? = some (p, tile) ↔
    t.isScore = false ∧ p = ⟨t.x.toInt, t.y.toInt⟩ ∧ t.id = tile.word := by
  cases score : t.isScore with
  | true => simp [drawing?_of_isScore score]
  | false =>
    have drawing : t.drawing? = (Tile.named? t.id).map (⟨t.x.toInt, t.y.toInt⟩, ·) := by
      rw [drawing?, score]
      rfl
    rw [drawing, Option.map_eq_some_iff]
    constructor
    · rintro ⟨kind, named, same⟩
      obtain ⟨rfl, rfl⟩ := Prod.mk_inj.mp same
      exact ⟨rfl, rfl, Tile.named?_eq_some_iff.mp named⟩
    · rintro ⟨-, rfl, named⟩
      exact ⟨tile, Tile.named?_eq_some_iff.mpr named, rfl⟩

/-- A triple is a score, or it names no tile, or it draws one. -/
theorem kinds (t : Triple) : t.isScore = true ∨ t.isScore = false ∧ Tile.named? t.id = none ∨
    ∃ p tile, t.drawing? = some (p, tile) := by
  cases score : t.isScore with
  | true => exact .inl rfl
  | false =>
    cases named : Tile.named? t.id with
    | none => exact .inr (.inl ⟨rfl, rfl⟩)
    | some tile =>
      have word := Tile.named?_eq_some_iff.mp named
      exact .inr (.inr ⟨_, tile, drawing?_eq_some_iff.mpr ⟨score, rfl, word⟩⟩)

theorem moves_iff_of_drawing (drawn : t.drawing? = some (p, tile)) :
    t.Moves ↔ tile = .ball ∨ tile = .paddle := by
  obtain ⟨place, -, named⟩ := drawing?_eq_some_iff.mp drawn
  rw [Moves, place, named]
  cases tile <;> decide

theorem drawing?_of_moves (moves : t.Moves) : ∃ p tile, t.drawing? = some (p, tile) := by
  obtain ⟨place, named | named⟩ := moves
  · exact ⟨_, .ball, drawing?_eq_some_iff.mpr ⟨place, rfl, named⟩⟩
  · exact ⟨_, .paddle, drawing?_eq_some_iff.mpr ⟨place, rfl, named⟩⟩

end Triple

namespace Screen

variable {t : Triple} {p : Point} {tile : Tile} (s : Screen)

def told (s : Screen) (t : Triple) : Screen := (Cabinet.respondTo s t.x t.y t.id).device.screen

theorem draw_fst (p : Point) (tile : Tile) : (s.draw p tile).1 =
    { s with
      tiles := s.tiles.insert p tile
      ball := if tile = .ball then some p else s.ball
      paddle := if tile = .paddle then some p else s.paddle } := by
  unfold draw
  cases tile with
  | empty | wall | block => rfl
  | ball | paddle =>
    dsimp only
    split <;> rfl

/-- Once the ball and the paddle are both there, each move of one of them is answered. -/
theorem draw_snd (p : Point) (tile : Tile) : (s.draw p tile).2 =
    if tile = .ball ∨ tile = .paddle then
      match (s.draw p tile).1.ball, (s.draw p tile).1.paddle with
      | some ball, some paddle => .reply ((s.draw p tile).1.tilt ball paddle)
      | _, _ => .silent
    else .silent := by
  rw [draw_fst]
  unfold draw
  cases tile with
  | empty | wall | block => rfl
  | ball | paddle =>
    dsimp only
    split <;> simp_all

theorem respondTo_of_isScore (score : t.isScore = true) : Cabinet.respondTo s t.x t.y t.id =
    { device := { screen := { s with score := t.id } }, answer := .silent } :=
  if_pos (of_decide_eq_true score)

theorem respondTo_of_unknown (place : t.isScore = false) (unknown : Tile.named? t.id = none) :
    Cabinet.respondTo s t.x t.y t.id =
      { device := { screen := s }
        answer := .silent
        warnings := [.unknownTile t.id t.x t.y] } := by
  rw [← Tile.ofWord?_eq_named?] at unknown
  rw [Cabinet.respondTo, if_neg (of_decide_eq_false place), unknown]

theorem respondTo_of_drawing (drawn : t.drawing? = some (p, tile)) :
    Cabinet.respondTo s t.x t.y t.id =
      { device := { screen := (s.draw p tile).1 }, answer := (s.draw p tile).2 } := by
  obtain ⟨place, rfl, named⟩ := Triple.drawing?_eq_some_iff.mp drawn
  rw [Cabinet.respondTo, if_neg (of_decide_eq_false place), Tile.ofWord?_eq_some_iff.mpr named]

theorem told_of_drawing (drawn : t.drawing? = some (p, tile)) :
    s.told t = (s.draw p tile).1 := by
  rw [told, respondTo_of_drawing s drawn]

theorem device_respondTo (t : Triple) :
    (Cabinet.respondTo s t.x t.y t.id).device = { screen := s.told t } := by
  rw [told]
  rcases t.kinds with score | ⟨place, unknown⟩ | ⟨p, tile, drawn⟩
  · rw [respondTo_of_isScore s score]
  · rw [respondTo_of_unknown s place unknown]
  · rw [respondTo_of_drawing s drawn]

theorem told_ofTriples (ts : List Triple) (t : Triple) :
    (ofTriples ts).told t = ofTriples (ts ++ [t]) := by
  rcases t.kinds with score | ⟨place, unknown⟩ | ⟨p, tile, drawn⟩
  · have blank := drawings_concat_of_none ts (Triple.drawing?_of_isScore score)
    simp only [told, respondTo_of_isScore _ score, ofTriples, lastPlace, blank, lastScore_concat,
      score, if_true]
  · have blank := drawings_concat_of_none ts (Triple.drawing?_of_unknown unknown)
    simp only [told, respondTo_of_unknown _ place unknown, ofTriples, lastPlace, blank,
      lastScore_concat, place, Bool.false_eq_true, if_false]
  · have place := (Triple.drawing?_eq_some_iff.mp drawn).1
    rw [told_of_drawing _ drawn, draw_fst]
    simp only [ofTriples, drawings_concat ts drawn, Chart.enter_concat, lastPlace_concat ts drawn,
      lastScore_concat, place, Bool.false_eq_true, if_false]

theorem foldl_told (ts : List Triple) : ts.foldl told {} = ofTriples ts := by
  induction ts using List.reverseRecOn with
  | nil => rfl
  | append_singleton ts t ih => rw [List.foldl_append, ih, List.foldl_cons, told_ofTriples]; rfl

end Screen

namespace Triple

/-- A stream is its triples and at most two words more. -/
theorem words_ofWords (ws : List Word) :
    (ofWords ws).flatMap (fun t => [t.x, t.y, t.id]) ++ remainder ws = ws ∧
      (remainder ws).length < 3 := by
  fun_induction ofWords ws with
  | case1 x y id rest ih =>
    rw [remainder, List.flatMap_cons, List.append_assoc, ih.1]
    exact ⟨rfl, ih.2⟩
  | case2 | case3 | case4 => exact ⟨rfl, by simp [remainder]⟩

end Triple

/-- A cabinet that holds no word has drawn the complete triples and holds the other words. -/
theorem after_eq (s : Screen) (ws : List Word) : Device.after ({ screen := s } : Cabinet) ws =
    { screen := (Triple.ofWords ws).foldl Screen.told s, held := Triple.remainder ws } := by
  fun_induction Triple.ofWords ws generalizing s with
  | case1 x y id rest ih =>
    have third : Device.after ({ screen := s } : Cabinet) (x :: y :: id :: rest) =
        Device.after (Cabinet.respondTo s x y id).device rest := rfl
    rw [third, s.device_respondTo ⟨x, y, id⟩, ih]
    rfl
  | case2 | case3 | case4 => rfl

theorem after_fresh (ws : List Word) : Device.after ({} : Cabinet) ws =
    { screen := Screen.ofTriples (Triple.ofWords ws), held := Triple.remainder ws } := by
  rw [after_eq, Screen.foldl_told]

section Shown

variable (ts : List Triple)

theorem getElem?_ofTriples (p : Point) : (Screen.ofTriples ts).tiles[p]? = lastTile ts p := by
  rw [Screen.ofTriples, Chart.getElem?_enter, Std.ExtTreeMap.getElem?_empty, Option.or_none]
  rfl

theorem encard_blocks :
    {p | lastTile ts p = some .block}.encard = (Screen.ofTriples ts).blocks := by
  rw [Screen.blocks, ← Chart.encard_kind]
  simp only [getElem?_ofTriples, beq_iff_eq, exists_eq_right]

theorem blocks_eq_zero_iff :
    (Screen.ofTriples ts).blocks = 0 ↔ ¬∃ p, lastTile ts p = some .block := by
  rw [← Nat.cast_eq_zero (R := ℕ∞), ← encard_blocks, Set.encard_eq_zero,
    Set.eq_empty_iff_forall_notMem, not_exists]
  rfl

open Classical in
theorem toInt_tilt (ball paddle : Point) : ((Screen.ofTriples ts).tilt ball paddle).toInt =
    if ∃ p, lastTile ts p = some .block then (ball.x - paddle.x).sign else 0 := by
  rw [Screen.tilt]
  by_cases left : ∃ p, lastTile ts p = some .block
  · have some : (Screen.ofTriples ts).blocks ≠ 0 := fun none =>
      (blocks_eq_zero_iff ts).mp none left
    rw [if_pos left, if_neg some]
    rcases Int.sign_trichotomy (ball.x - paddle.x) with sign | sign | sign <;> rw [sign] <;> decide
  · rw [if_neg left, if_pos ((blocks_eq_zero_iff ts).mpr left)]
    rfl

end Shown

theorem Screen.answer_respondTo (s : Screen) (t : Triple) :
    (Cabinet.respondTo s t.x t.y t.id).answer =
      if t.Moves then
        match (s.told t).ball, (s.told t).paddle with
        | some ball, some paddle => .reply ((s.told t).tilt ball paddle)
        | _, _ => .silent
      else .silent := by
  have still (blank : t.drawing? = none) : ¬t.Moves := by
    intro moves
    obtain ⟨p, tile, drawn⟩ := Triple.drawing?_of_moves moves
    rw [blank] at drawn
    cases drawn
  rcases t.kinds with score | ⟨place, unknown⟩ | ⟨p, tile, drawn⟩
  · rw [respondTo_of_isScore s score, if_neg (still (Triple.drawing?_of_isScore score))]
  · rw [respondTo_of_unknown s place unknown, if_neg (still (Triple.drawing?_of_unknown unknown))]
  · rw [respondTo_of_drawing s drawn, draw_snd, told_of_drawing s drawn]
    simp only [Triple.moves_iff_of_drawing drawn]

theorem Screen.answer_ne_crash (s : Screen) (t : Triple) :
    (Cabinet.respondTo s t.x t.y t.id).answer ≠ .crash := by
  rw [answer_respondTo]
  split
  · split <;> nofun
  · nofun

open Classical in
/-- A triple that is answered with a tilt, after others: it moves the ball or the paddle, both have
been drawn by then, and the tilt brings the paddle under the ball as long as there is a block. -/
structure Due (ts : List Triple) (t : Triple) (v : Word) : Prop where
  moves : t.Moves
  steers : ∃ ball paddle, lastPlace (ts ++ [t]) .ball = some ball ∧
    lastPlace (ts ++ [t]) .paddle = some paddle ∧
    v.toInt = if ∃ p, lastTile (ts ++ [t]) p = some .block then (ball.x - paddle.x).sign else 0

theorem answer_eq_reply_iff (ts : List Triple) (t : Triple) (v : Word) :
    (Cabinet.respondTo (Screen.ofTriples ts) t.x t.y t.id).answer = .reply v ↔ Due ts t v := by
  have ball : (Screen.ofTriples (ts ++ [t])).ball = lastPlace (ts ++ [t]) .ball := rfl
  have paddle : (Screen.ofTriples (ts ++ [t])).paddle = lastPlace (ts ++ [t]) .paddle := rfl
  rw [Screen.answer_respondTo, Screen.told_ofTriples, ball, paddle]
  by_cases moves : t.Moves
  · rw [if_pos moves]
    constructor
    · intro answered
      split at answered
      · rename_i b p drawnBall drawnPaddle
        cases answered
        exact ⟨moves, b, p, drawnBall, drawnPaddle, toInt_tilt _ b p⟩
      · cases answered
    · rintro ⟨-, b, p, drawnBall, drawnPaddle, steers⟩
      rw [drawnBall, drawnPaddle]
      rw [← toInt_tilt, Int64.toInt_inj] at steers
      rw [steers]
  · rw [if_neg moves]
    exact iff_of_false nofun fun due => moves due.moves

structure Shows (s : Screen) (ts : List Triple) : Prop where
  /-- At each place stands the tile that was drawn there last. -/
  tiles : ∀ p, s.tileAt p = (lastTile ts p).getD .empty
  score : s.score = lastScore ts
  /-- As many blocks are counted as there are places where a block was drawn last. -/
  blocks : {p | lastTile ts p = some .block}.encard = s.blocks
  ball : s.ball = lastPlace ts .ball
  paddle : s.paddle = lastPlace ts .paddle

theorem shows_ofTriples (ts : List Triple) : Shows (Screen.ofTriples ts) ts where
  tiles p := by
    rw [Screen.tileAt, Std.ExtTreeMap.getD_eq_getD_getElem?, getElem?_ofTriples]
  score := rfl
  blocks := encard_blocks ts
  ball := rfl
  paddle := rfl

theorem respond_of_short (s : Screen) {held : List Word} (short : held.length < 2) (w : Word) :
    Device.respond ({ screen := s, held } : Cabinet) w =
      { device := { screen := s, held := held ++ [w] }, answer := .silent } := by
  match held, short with
  | [], _ | [_], _ => rfl

/-- What a cabinet shows and answers is told by the words that it has been told, cut into triples
from the first one on. Its screen shows what was drawn last. A word that completes a triple is
answered if a tilt is due to it, and no other word is. A word that completes none changes nothing on
the screen. -/
theorem shows_last_drawings (ws : List Word) :
    let c := Device.after ({} : Cabinet) ws
    let ts := Triple.ofWords ws
    ws = ts.flatMap (fun t => [t.x, t.y, t.id]) ++ Triple.remainder ws ∧
    (Triple.remainder ws).length < 3 ∧
    Shows c.screen ts ∧
    ∀ w,
      (∀ v, (Device.respond c w).answer = .reply v ↔
        ∃ t : Triple, Triple.remainder ws = [t.x, t.y] ∧ t.id = w ∧ Due ts t v) ∧
      (Device.respond c w).answer ≠ .crash ∧
      ((Triple.remainder ws).length < 2 → (Device.respond c w).device.screen = c.screen) := by
  intro c ts
  obtain ⟨cut, most⟩ := Triple.words_ofWords ws
  have state : c = { screen := Screen.ofTriples ts, held := Triple.remainder ws } := after_fresh ws
  refine ⟨cut.symm, most, ?_, fun w => ?_⟩
  · rw [state]
    exact shows_ofTriples ts
  by_cases short : (Triple.remainder ws).length < 2
  · have held := respond_of_short (Screen.ofTriples ts) short w
    rw [state, held]
    refine ⟨fun v => iff_of_false nofun ?_, nofun, fun _ => rfl⟩
    rintro ⟨t, two, -⟩
    rw [two] at short
    exact Nat.lt_irrefl 2 short
  · obtain ⟨x, y, two⟩ := List.length_eq_two.mp (by omega : (Triple.remainder ws).length = 2)
    have third : Device.respond c w = Cabinet.respondTo (Screen.ofTriples ts) x y w := by
      rw [state, two]
      rfl
    rw [third]
    refine ⟨fun v => ?_, Screen.answer_ne_crash _ ⟨x, y, w⟩, fun less => absurd less short⟩
    rw [answer_eq_reply_iff ts ⟨x, y, w⟩]
    constructor
    · intro due
      exact ⟨⟨x, y, w⟩, two, rfl, due⟩
    · rintro ⟨⟨x', y', w'⟩, same, rfl, due⟩
      cases two.symm.trans same
      exact due

/-- A game that draws a block, the paddle, a score and the ball, and then takes the block away. -/
def rally : List Word := [5, 0, 2, 3, 9, 3, -1, 0, 17, 7, 4, 4, 5, 0, 0]

/-- With the ball on its right the paddle is to go there. After that the block is still there when
its place has been named but not yet what to draw at it. -/
theorem rally_shows_last_drawings :
    let drawing := Device.after ({} : Cabinet) (rally.take 11)
    let erasing := Device.after ({} : Cabinet) (rally.take 14)
    (Device.respond drawing 4).answer = .reply 1 ∧ drawing.screen.score = 17 ∧
      drawing.screen.paddle = some ⟨3, 9⟩ ∧ drawing.screen.ball = none ∧
      (Triple.remainder (rally.take 13)).length < 2 ∧
      erasing.screen = (Device.after ({} : Cabinet) (rally.take 13)).screen ∧
      erasing.screen.tileAt ⟨5, 0⟩ = .block ∧
      (Device.after ({} : Cabinet) rally).screen.tileAt ⟨5, 0⟩ = .empty := by
  intro drawing erasing
  obtain ⟨-, -, shows, answers⟩ := shows_last_drawings (rally.take 11)
  obtain ⟨-, -, -, unfinished⟩ := shows_last_drawings (rally.take 13)
  obtain ⟨-, -, erases, -⟩ := shows_last_drawings (rally.take 14)
  obtain ⟨-, -, erased, -⟩ := shows_last_drawings rally
  have due : Due (Triple.ofWords (rally.take 11)) ⟨7, 4, 4⟩ 1 := by
    refine ⟨by decide, ⟨7, 4⟩, ⟨3, 9⟩, by decide, by decide, ?_⟩
    rw [if_pos ⟨⟨5, 0⟩, by decide⟩]
    decide
  have short : (Triple.remainder (rally.take 13)).length < 2 := by decide
  refine ⟨((answers 4).1 1).mpr ⟨⟨7, 4, 4⟩, by decide, rfl, due⟩, ?_, ?_, ?_, short,
    (unfinished 0).2.2 short, ?_, ?_⟩
  · exact shows.score.trans (by decide)
  · exact shows.paddle.trans (by decide)
  · exact shows.ball.trans (by decide)
  · exact (erases.tiles ⟨5, 0⟩).trans (by decide)
  · exact (erased.tiles ⟨5, 0⟩).trans (by decide)

end Intcode.Arcade
