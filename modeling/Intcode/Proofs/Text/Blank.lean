import Intcode.Text.Blank
import Mathlib.Data.List.TakeWhile

/-!
# Trimming and cutting

Trimming undoes the blanks that are put around a text, and cutting at a character undoes joining
with that character the pieces in which it does not occur. What stands before the first blank is the
first field.
-/

namespace Intcode.Text

theorem not_isBlank_of_isDigit {c : Char} (digit : c.isDigit = true) : isBlank c = false := by
  have range := Char.isDigit_iff_toNat.mp digit
  have low : '0'.toNat = 48 := rfl
  have high : '9'.toNat = 57 := rfl
  simp only [isBlank, Bool.or_eq_false_iff, Bool.and_eq_false_iff, decide_eq_false_iff_not,
    beq_eq_false_iff_ne]
  omega

section Framed

variable {before body after : List Char}

theorem dropWhile_of_head {s : List Char} (first : ∀ c ∈ s.head?, isBlank c = false) :
    s.dropWhile isBlank = s := by
  cases s with
  | nil => rfl
  | cons c s => exact List.dropWhile_cons_of_neg (by simp [first c rfl])

/-- Trimming takes off the blanks around a text that neither starts nor ends with one. -/
theorem trim_framed (left : ∀ c ∈ before, isBlank c = true) (right : ∀ c ∈ after, isBlank c = true)
    (first : ∀ c ∈ body.head?, isBlank c = false)
    (last : ∀ c ∈ body.getLast?, isBlank c = false) : trim (before ++ body ++ after) = body := by
  have cut : trimStart (before ++ body ++ after) = trimStart (body ++ after) := by
    rw [List.append_assoc]
    exact List.dropWhile_append_of_pos left
  rw [trim, cut]
  cases body with
  | nil =>
    have gone : trimStart ([] ++ after) = [] := List.dropWhile_eq_nil_iff.mpr right
    rw [gone]
    rfl
  | cons c more =>
    have kept : trimStart (c :: more ++ after) = c :: more ++ after := dropWhile_of_head first
    rw [kept, trimEnd, List.reverse_append,
      List.dropWhile_append_of_pos fun d mem => right d (List.mem_reverse.mp mem),
      dropWhile_of_head (by rwa [List.head?_reverse]), List.reverse_reverse]

/-- Nothing is left of blanks. -/
theorem trim_of_blank (blank : ∀ c ∈ body, isBlank c = true) : trim body = [] := by
  have framed : trim (body ++ [] ++ []) = [] := trim_framed blank nofun nofun nofun
  rwa [List.append_nil, List.append_nil] at framed

/-- A text that neither starts nor ends with a blank is not trimmed. -/
theorem trim_of_ends (first : ∀ c ∈ body.head?, isBlank c = false)
    (last : ∀ c ∈ body.getLast?, isBlank c = false) : trim body = body := by
  have framed : trim ([] ++ body ++ []) = body := trim_framed nofun nofun first last
  rwa [List.nil_append, List.append_nil] at framed

end Framed

/-- What is left of a text between the blanks at its ends. -/
structure Trims (s body : List Char) : Prop where
  framed : ∃ before after, s = before ++ body ++ after ∧ (∀ c ∈ before, isBlank c = true) ∧
    ∀ c ∈ after, isBlank c = true
  first : ∀ c ∈ body.head?, isBlank c = false
  last : ∀ c ∈ body.getLast?, isBlank c = false

theorem head_trimStart (s : List Char) : ∀ c ∈ (trimStart s).head?, isBlank c = false := by
  intro c first
  have stops := List.head?_dropWhile_not isBlank s
  rw [trimStart] at first
  rwa [Option.mem_def.mp first] at stops

theorem exists_trimEnd (s : List Char) :
    ∃ after, s = trimEnd s ++ after ∧ ∀ c ∈ after, isBlank c = true := by
  refine ⟨(s.reverse.takeWhile isBlank).reverse, ?_, fun c mem => ?_⟩
  · rw [trimEnd, ← List.reverse_append, List.takeWhile_append_dropWhile, List.reverse_reverse]
  · exact List.mem_takeWhile_imp (List.mem_reverse.mp mem)

/-- Trimming leaves exactly what stands between the blanks at the ends. -/
theorem trims_iff {s body : List Char} : Trims s body ↔ trim s = body := by
  constructor
  · rintro ⟨⟨before, after, rfl, left, right⟩, first, last⟩
    exact trim_framed left right first last
  · rintro rfl
    obtain ⟨after, parts, right⟩ := exists_trimEnd (trimStart s)
    refine ⟨⟨s.takeWhile isBlank, after, ?_, fun c => List.mem_takeWhile_imp, right⟩,
      fun c first => ?_, fun c last => ?_⟩
    · rw [List.append_assoc, trim, ← parts, trimStart, List.takeWhile_append_dropWhile]
    · refine head_trimStart s c ?_
      rw [trim, Option.mem_def] at first
      rw [parts, Option.mem_def, List.head?_append, first]
      rfl
    · rw [trim, trimEnd, List.getLast?_reverse] at last
      exact head_trimStart (trimStart s).reverse c last

theorem pieces_eq_splitOnP (cut : Char → Bool) (s : List Char) :
    pieces cut s = s.splitOnP cut := by
  induction s with
  | nil => rw [List.splitOnP_nil, pieces]
  | cons c rest ih =>
    rw [List.splitOnP_cons_eq_if_modifyHead, ← ih, pieces]
    split
    · rfl
    · have some := pieces_ne_nil cut rest
      cases parts : pieces cut rest with
      | nil => exact absurd parts some
      | cons piece more => rfl

section Cut

variable {cut : Char → Bool} {c : Char}

theorem pieces_cons_of_cut {rest : List Char} (separates : cut c = true) :
    pieces cut (c :: rest) = [] :: pieces cut rest :=
  if_pos separates

theorem pieces_append_cut (a b : List Char) (separates : cut c = true) :
    pieces cut (a ++ c :: b) = pieces cut a ++ pieces cut b := by
  rw [pieces_eq_splitOnP, pieces_eq_splitOnP, pieces_eq_splitOnP]
  exact List.splitOnP_append_cons a b separates

/-- The characters of a piece are characters of the text and no cuts. -/
theorem of_mem_pieces {s piece : List Char} (mem : piece ∈ pieces cut s) :
    ∀ c ∈ piece, c ∈ s ∧ cut c = false := by
  induction s generalizing piece with
  | nil =>
    obtain rfl := List.mem_singleton.mp mem
    exact nofun
  | cons d s ih =>
    have later {q : List Char} (mem : q ∈ pieces cut s) :
        ∀ c ∈ q, c ∈ d :: s ∧ cut c = false := fun c inside =>
      ⟨List.mem_cons_of_mem d (ih mem c inside).1, (ih mem c inside).2⟩
    by_cases separates : cut d = true
    · rw [pieces_cons_of_cut separates] at mem
      rcases List.mem_cons.mp mem with rfl | mem
      · exact nofun
      · exact later mem
    · obtain ⟨first, more, parts⟩ := List.exists_cons_of_ne_nil (pieces_ne_nil cut s)
      rw [pieces, if_neg separates, parts] at mem
      rcases List.mem_cons.mp mem with rfl | mem
      · refine List.forall_mem_cons.mpr ⟨⟨List.mem_cons_self, Bool.eq_false_iff.mpr separates⟩, ?_⟩
        exact later (parts ▸ List.mem_cons_self)
      · exact later (parts ▸ List.mem_cons_of_mem first mem)

/-- What is not cut belongs to the first piece of what follows. -/
theorem pieces_append {body rest piece : List Char} {more : List (List Char)}
    (whole : ∀ c ∈ body, cut c = false) (follows : pieces cut rest = piece :: more) :
    pieces cut (body ++ rest) = (body ++ piece) :: more := by
  induction body with
  | nil => exact follows
  | cons c body ih =>
    rw [List.forall_mem_cons] at whole
    rw [List.cons_append, pieces, ih whole.2, whole.1]
    rfl

theorem pieces_flatMap {parts : List (List Char)} (separates : cut c = true)
    (whole : ∀ p ∈ parts, ∀ c ∈ p, cut c = false) :
    pieces cut (parts.flatMap (c :: ·)) = [] :: parts := by
  induction parts with
  | nil => rfl
  | cons p parts ih =>
    rw [List.forall_mem_cons] at whole
    have first := pieces_append whole.1 (ih whole.2)
    rw [List.append_nil] at first
    rw [List.flatMap_cons, List.cons_append, pieces_cons_of_cut separates, first]

end Cut

/-- What stands in joined pieces stands between them or in one of them. -/
theorem mem_of_mem_intercalate {α : Type} {a : α} {between : List α} {parts : List (List α)}
    (mem : a ∈ between.intercalate parts) : a ∈ between ∨ ∃ p ∈ parts, a ∈ p := by
  induction parts with
  | nil => cases mem
  | cons p parts ih =>
    cases parts with
    | nil =>
      rw [List.intercalate_singleton] at mem
      exact .inr ⟨p, List.mem_cons_self, mem⟩
    | cons q parts =>
      rw [List.intercalate_cons_cons, List.mem_append, List.mem_append] at mem
      rcases mem with (first | separates) | later
      · exact .inr ⟨p, List.mem_cons_self, first⟩
      · exact .inl separates
      · rcases ih later with separates | ⟨r, mem, inside⟩
        · exact .inl separates
        · exact .inr ⟨r, List.mem_cons_of_mem _ mem, inside⟩

/-- Cutting at a character undoes joining with it. -/
theorem pieces_intercalate {c : Char} {parts : List (List Char)} (clear : ∀ p ∈ parts, c ∉ p)
    (some : parts ≠ []) : pieces (· == c) ([c].intercalate parts) = parts := by
  rw [pieces_eq_splitOnP]
  exact List.splitOn_intercalate c clear some

/-- The first field ends at a blank. -/
theorem firstField_append {name rest : List Char} (clear : ∀ c ∈ name, isBlank c = false)
    (ends : ∀ c ∈ rest.head?, isBlank c = true) :
    firstField (name ++ rest) = (name, rest.drop 1) := by
  have inside : ∀ c ∈ name, (!isBlank c) = true := fun c mem => by rw [clear c mem]; rfl
  rw [firstField, List.takeWhile_append_of_pos inside, List.dropWhile_append_of_pos inside]
  cases rest with
  | nil => rw [List.takeWhile_nil, List.append_nil]; rfl
  | cons c rest =>
    have blank : isBlank c = true := ends c rfl
    simp only [List.takeWhile_cons, List.dropWhile_cons, blank, Bool.not_true, Bool.false_eq_true,
      if_false, List.append_nil]

end Intcode.Text
