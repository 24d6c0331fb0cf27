import Intcode.Program
import Intcode.Proofs.Text.Blank
import Intcode.Proofs.Text.Numeral

/-!
# Listings are read back

However words are written as a listing, with blanks around the numerals, with signs and zeros in
front of the digits and with blank tokens in between, reading it returns these words. The text of a
program is one such listing.
-/

namespace Intcode.Program

/-- Tokens that spell words: a numeral of each word with blanks around it, and between them any
number of tokens that hold nothing but blanks. -/
inductive Spells : List (List Char) → List Word → Prop
  | none : Spells [] []
  | blank {token : List Char} {ts : List (List Char)} {ws : List Word}
      (blank : ∀ c ∈ token, Text.isBlank c = true) (rest : Spells ts ws) : Spells (token :: ts) ws
  | word {before body after : List Char} {w : Word} {ts : List (List Char)} {ws : List Word}
      (left : ∀ c ∈ before, Text.isBlank c = true) (right : ∀ c ∈ after, Text.isBlank c = true)
      (spells : Numeral.Spells w body) (rest : Spells ts ws) :
      Spells ((before ++ body ++ after) :: ts) (w :: ws)

theorem not_comma_of_isBlank {c : Char} (blank : Text.isBlank c = true) : c ≠ ',' := by
  rintro rfl
  cases blank

/-- There are no blanks and no commas in a numeral. -/
theorem clear_of_spells {w : Word} {body : List Char} (spells : Numeral.Spells w body) {c : Char}
    (mem : c ∈ body) : Text.isBlank c = false ∧ c ≠ ',' := by
  rcases spells.denotes.mem mem with digit | rfl | rfl
  · refine ⟨Text.not_isBlank_of_isDigit digit, ?_⟩
    rintro rfl
    cases digit
  · decide
  · decide

theorem Spells.clear {ts : List (List Char)} {ws : List Word} (spells : Spells ts ws) :
    ∀ t ∈ ts, ',' ∉ t := by
  induction spells with
  | none => exact nofun
  | blank blank _ ih =>
    exact List.forall_mem_cons.mpr ⟨fun mem => not_comma_of_isBlank (blank _ mem) rfl, ih⟩
  | word left right spells _ ih =>
    refine List.forall_mem_cons.mpr ⟨fun mem => ?_, ih⟩
    rw [List.mem_append, List.mem_append] at mem
    rcases mem with (before | body) | after
    · exact not_comma_of_isBlank (left _ before) rfl
    · exact (clear_of_spells spells body).2 rfl
    · exact not_comma_of_isBlank (right _ after) rfl

theorem Spells.ne_nil {ts : List (List Char)} {ws : List Word} (spells : Spells ts ws)
    (some : ws ≠ []) : ts ≠ [] := by
  cases spells with
  | none => exact absurd rfl some
  | blank _ _ | word _ _ _ _ => exact List.cons_ne_nil _ _

theorem Spells.readTokens_eq {ts : List (List Char)} {ws : List Word} (spells : Spells ts ws)
    (index : Nat) : readTokens index (ts.map Text.trim) = .ok ws := by
  induction spells generalizing index with
  | none => rfl
  | blank blank _ ih =>
    rw [List.map_cons, Text.trim_of_blank blank, readTokens]
    exact ih (index + 1)
  | word left right spells _ ih =>
    have clear c mem := (clear_of_spells spells (c := c) mem).1
    have some := List.isEmpty_eq_false_iff.mpr spells.denotes.ne_nil
    have first c mem := clear c (List.mem_of_head? mem)
    have last c mem := clear c (List.mem_of_getLast? mem)
    rw [List.map_cons, Text.trim_framed left right first last, readTokens, some,
      spells.readWord_eq, ih (index + 1)]
    rfl

theorem parse_eq_ok {s : List Char} {ws : List Word} (some : ws ≠ [])
    (read : readTokens 0 (tokens s) = .ok ws) : parse s = .ok ⟨ws.toArray⟩ := by
  obtain ⟨w, rest, rfl⟩ := List.exists_cons_of_ne_nil some
  rw [parse, read]

theorem words_of_parse {s : List Char} {p : Program} (parsed : parse s = .ok p) :
    p.words.toList ≠ [] := by
  rw [parse] at parsed
  split at parsed
  · cases parsed
  · cases parsed
  · rename_i ws some _
    cases parsed
    exact some

/-- However words are written, they are read back. -/
theorem parse_of_spells {ts : List (List Char)} {ws : List Word} (spells : Spells ts ws)
    (some : ws ≠ []) : parse ([','].intercalate ts) = .ok ⟨ws.toArray⟩ := by
  refine parse_eq_ok some ?_
  rw [tokens, Text.pieces_intercalate spells.clear (spells.ne_nil some)]
  exact spells.readTokens_eq 0

theorem spells_texts (ws : List Word) : Spells (ws.map fun w => w.text.toList) ws := by
  induction ws with
  | nil => exact .none
  | cons w ws ih =>
    have first : Spells (([] ++ w.text.toList ++ []) :: ws.map fun w => w.text.toList) (w :: ws) :=
      .word nofun nofun (Numeral.spells_text w) ih
    rwa [List.nil_append, List.append_nil] at first

theorem toList_text (p : Program) :
    p.text.toList = [','].intercalate (p.words.toList.map fun w => w.text.toList) := by
  rw [text, String.toList_intercalate, List.map_map]
  rfl

theorem parse_text (p : Program) (some : p.words.toList ≠ []) : parse p.text.toList = .ok p := by
  rw [toList_text]
  exact parse_of_spells (spells_texts p.words.toList) some

/-- Reading undoes writing: words are read back from whatever listing spells them, a program from
its text, and the text of what was read from any listing reads the same again. -/
theorem parsing_undoes_printing :
    (∀ ts ws, Spells ts ws → ws ≠ [] → parse ([','].intercalate ts) = .ok ⟨ws.toArray⟩) ∧
    (∀ p : Program, p.words ≠ #[] → parse p.text.toList = .ok p) ∧
    ∀ s p, parse s = .ok p → parse p.text.toList = .ok p := by
  refine ⟨fun ts ws => parse_of_spells, fun p some => ?_, fun s p parsed => ?_⟩
  · refine parse_text p fun empty => some ?_
    exact Array.toList_eq_nil_iff.mp empty
  · exact parse_text p (words_of_parse parsed)

/-- A listing with blanks of many kinds, tokens without a word, a plus sign and zeros. -/
def scattered : List (List Char) :=
  ["\u3000+007\t".toList, [], " \u2028".toList, "\n-00009223372036854775808 ".toList]

/-- It reads as two words, and so does what these are written as. -/
theorem scattered_is_read_back :
    let p : Program := ⟨#[7, -9223372036854775808]⟩
    parse ([','].intercalate scattered) = .ok p ∧ p.words ≠ #[] ∧ parse p.text.toList = .ok p := by
  intro p
  have first : Numeral.Spells 7 "+007".toList := .plus 2 (by decide)
  have last : Numeral.Spells (-9223372036854775808) "-00009223372036854775808".toList :=
    .minus 4 (by decide)
  have blank {s : List Char} (all : s.all Text.isBlank = true) : ∀ c ∈ s, Text.isBlank c = true :=
    List.all_eq_true.mp all
  have spells : Spells scattered [7, -9223372036854775808] :=
    .word (blank (s := ['\u3000']) rfl) (blank (s := ['\t']) rfl) first <|
    .blank (blank rfl) <| .blank (blank rfl) <|
    .word (blank (s := ['\n']) rfl) (blank (s := [' ']) rfl) last .none
  have read := parsing_undoes_printing.1 scattered _ spells (List.cons_ne_nil _ _)
  exact ⟨read, by decide, parsing_undoes_printing.2.2 _ p read⟩

end Intcode.Program
