import Intcode.Proofs.Program
import Mathlib.Data.List.Forall2

/-!
# What a listing is

A text is cut at its commas and the blanks at the ends of the tokens do not count. It is a listing
if some token is left that is not blank and all of these are numerals of words. Otherwise it is the
first token which is neither blank nor a numeral that is reported, with its place among all tokens.
-/

namespace Intcode.Program

/-- A token is neither blank nor a numeral of a number that a word can hold. -/
def Unreadable (body : List Char) : Prop :=
  body ≠ [] ∧ ∀ n, Numeral.Denotes body n → n < -0x8000000000000000 ∨ 0x8000000000000000 ≤ n

structure FirstUnreadable (bodies : List (List Char)) (index : Nat) (token : List Char) :
    Prop where
  place : bodies[index]? = some token
  unreadable : Unreadable token
  first : ∀ i < index, ∀ body, bodies[i]? = some body → ¬Unreadable body

/-- The words of the tokens that are not blank, in order. -/
def Denote (bodies : List (List Char)) (ws : List Word) : Prop :=
  List.Forall₂ (fun body w => Numeral.Denotes body w.toInt) (bodies.filter (· ≠ [])) ws

theorem unreadable_iff {body : List Char} :
    Unreadable body ↔ body ≠ [] ∧ ∀ w, Numeral.readWord body ≠ .ok w := by
  refine and_congr_right fun _ => ?_
  simp only [ne_eq, Numeral.readWord_eq_ok_iff]
  constructor
  · intro outside w denotes
    have low := Int64.le_toInt w
    have high := Int64.toInt_lt w
    rcases outside w.toInt denotes with below | above <;> omega
  · intro none n denotes
    by_contra inside
    have range : -0x8000000000000000 ≤ n ∧ n < 0x8000000000000000 := by omega
    refine none (Int64.ofInt n) ?_
    rwa [Int64.toInt_ofInt_of_le range.1 range.2]

theorem not_unreadable_nil : ¬Unreadable [] := fun h => h.1 rfl

theorem not_unreadable_of_read {body : List Char} {w : Word}
    (read : Numeral.readWord body = .ok w) : ¬Unreadable body :=
  fun h => (unreadable_iff.mp h).2 w read

theorem token_cases (body : List Char) :
    body = [] ∨ Unreadable body ∨ body ≠ [] ∧ ∃ w, Numeral.readWord body = .ok w := by
  by_cases blank : body = []
  · exact .inl blank
  · rw [unreadable_iff]
    by_cases readable : ∃ w, Numeral.readWord body = .ok w
    · exact .inr (.inr ⟨blank, readable⟩)
    · exact .inr (.inl ⟨blank, not_exists.mp readable⟩)

section Read

variable {body : List Char} (start : Nat) (bodies : List (List Char))

theorem readTokens_of_unreadable (unreadable : Unreadable body) :
    readTokens start (body :: bodies) = .error (.invalidWord body start) := by
  obtain ⟨some, none⟩ := unreadable_iff.mp unreadable
  rw [readTokens, List.isEmpty_eq_false_iff.mpr some]
  cases read : Numeral.readWord body with
  | error e => rfl
  | ok w => exact absurd read (none w)

theorem readTokens_of_word {w : Word} (some : body ≠ []) (read : Numeral.readWord body = .ok w) :
    readTokens start (body :: bodies) = (readTokens (start + 1) bodies).map (w :: ·) := by
  rw [readTokens, List.isEmpty_eq_false_iff.mpr some, read]
  cases readTokens (start + 1) bodies with
  | error e => rfl
  | ok ws => rfl

end Read

section First

variable {body token : List Char} {bodies : List (List Char)} {index : Nat}

theorem firstUnreadable_nil : ¬FirstUnreadable [] index token := by
  rintro ⟨place, -, -⟩
  cases place

theorem firstUnreadable_cons_of_unreadable (unreadable : Unreadable body) :
    FirstUnreadable (body :: bodies) index token ↔ index = 0 ∧ token = body := by
  constructor
  · rintro ⟨place, -, first⟩
    cases index with
    | zero => exact ⟨rfl, (Option.some.inj place).symm⟩
    | succ i => exact absurd unreadable (first 0 (Nat.succ_pos i) body rfl)
  · rintro ⟨rfl, rfl⟩
    exact ⟨rfl, unreadable, nofun⟩

theorem firstUnreadable_cons_of_not (readable : ¬Unreadable body) :
    FirstUnreadable (body :: bodies) index token ↔
      ∃ i, index = i + 1 ∧ FirstUnreadable bodies i token := by
  constructor
  · rintro ⟨place, unreadable, first⟩
    cases index with
    | zero =>
      obtain rfl := Option.some.inj place
      exact absurd unreadable readable
    | succ i =>
      exact ⟨i, rfl, place, unreadable, fun j less => first (j + 1) (Nat.succ_lt_succ less)⟩
  · rintro ⟨i, rfl, place, unreadable, first⟩
    refine ⟨place, unreadable, fun j less other here => ?_⟩
    cases j with
    | zero =>
      obtain rfl := Option.some.inj here
      exact readable
    | succ j => exact first j (Nat.lt_of_succ_lt_succ less) other here

end First

/-- What is reported is the first unreadable token. -/
theorem readTokens_eq_error_iff {bodies : List (List Char)} {start : Nat} {e : ListingError} :
    readTokens start bodies = .error e ↔
      ∃ i token, FirstUnreadable bodies i token ∧ e = .invalidWord token (start + i) := by
  induction bodies generalizing start with
  | nil => exact iff_of_false nofun fun ⟨_, _, first, _⟩ => firstUnreadable_nil first
  | cons body bodies ih =>
    have later (readable : ¬Unreadable body) :
        readTokens (start + 1) bodies = .error e ↔ ∃ i token,
          FirstUnreadable (body :: bodies) i token ∧ e = .invalidWord token (start + i) := by
      simp only [ih, firstUnreadable_cons_of_not readable, Nat.add_right_comm start 1]
      constructor
      · rintro ⟨i, token, first, rfl⟩
        exact ⟨i + 1, token, ⟨i, rfl, first⟩, rfl⟩
      · rintro ⟨_, token, ⟨i, rfl, first⟩, rfl⟩
        exact ⟨i, token, first, rfl⟩
    rcases token_cases body with rfl | unreadable | ⟨some, w, read⟩
    · exact later not_unreadable_nil
    · simp only [readTokens_of_unreadable start bodies unreadable,
        firstUnreadable_cons_of_unreadable unreadable, Except.error.injEq]
      constructor
      · rintro rfl
        exact ⟨0, body, ⟨rfl, rfl⟩, rfl⟩
      · rintro ⟨_, _, ⟨rfl, rfl⟩, rfl⟩
        rfl
    · rw [readTokens_of_word start bodies some read, ← later (not_unreadable_of_read read)]
      cases readTokens (start + 1) bodies with
      | error e' => rfl
      | ok ws => exact iff_of_false nofun nofun

theorem denote_cons {body : List Char} {bodies : List (List Char)} {ws : List Word}
    (some : body ≠ []) : Denote (body :: bodies) ws ↔
      ∃ w ws', Numeral.Denotes body w.toInt ∧ Denote bodies ws' ∧ ws = w :: ws' := by
  have kept : (body :: bodies).filter (· ≠ []) = body :: bodies.filter (· ≠ []) :=
    List.filter_cons_of_pos (decide_eq_true some)
  rw [Denote, kept, List.forall₂_cons_left_iff]
  rfl

theorem denote_nil_iff {bodies : List (List Char)} :
    Denote bodies [] ↔ ∀ body ∈ bodies, body = [] := by
  rw [Denote, List.forall₂_nil_right_iff, List.filter_eq_nil_iff]
  simp only [ne_eq, decide_not, Bool.not_eq_true', decide_eq_false_iff_not, not_not]

/-- Words are read where nothing but blank tokens and their numerals is. -/
theorem readTokens_eq_ok_iff (start : Nat) {bodies : List (List Char)} {ws : List Word} :
    readTokens start bodies = .ok ws ↔ Denote bodies ws := by
  induction bodies generalizing start ws with
  | nil =>
    rw [readTokens, Except.ok.injEq, Denote, List.filter_nil, List.forall₂_nil_left_iff, eq_comm]
  | cons body bodies ih =>
    rcases token_cases body with rfl | unreadable | ⟨some, w, read⟩
    · exact ih (start + 1)
    · rw [readTokens_of_unreadable start bodies unreadable, denote_cons unreadable.1]
      constructor
      · intro same
        cases same
      · rintro ⟨w, ws', denotes, -, rfl⟩
        exact absurd unreadable (not_unreadable_of_read (Numeral.readWord_eq_ok_iff.mpr denotes))
    · rw [readTokens_of_word start bodies some read, denote_cons some]
      constructor
      · intro mapped
        cases rest : readTokens (start + 1) bodies with
        | error e =>
          rw [rest] at mapped
          cases mapped
        | ok ws' =>
          rw [rest] at mapped
          exact ⟨w, ws', Numeral.readWord_eq_ok_iff.mp read, (ih _).mp rest,
            (Except.ok.inj mapped).symm⟩
      · rintro ⟨w', ws', denotes, rest, rfl⟩
        obtain rfl : w = w' :=
          Except.ok.inj (read.symm.trans (Numeral.readWord_eq_ok_iff.mpr denotes))
        rw [(ih _).mpr rest]
        rfl

/-- A text has one list of tokens without their blanks. -/
theorem trims_tokens_iff {s : List Char} {bodies : List (List Char)} :
    List.Forall₂ Text.Trims (s.splitOn ',') bodies ↔ bodies = tokens s := by
  have trims : Text.Trims = fun part body => Text.trim part = body :=
    funext fun part => funext fun body => propext Text.trims_iff
  rw [trims, ← List.forall₂_map_left_iff, List.forall₂_eq_eq_eq, tokens, Text.pieces_eq_splitOnP,
    eq_comm]
  rfl

theorem parse_eq_invalid_iff {s : List Char} {token : List Char} {index : Nat} :
    parse s = .error (.invalidWord token index) ↔ FirstUnreadable (tokens s) index token := by
  have reported : readTokens 0 (tokens s) = .error (.invalidWord token index) ↔
      FirstUnreadable (tokens s) index token := by
    simp only [readTokens_eq_error_iff, Nat.zero_add, ListingError.invalidWord.injEq]
    constructor
    · rintro ⟨i, t, first, rfl, rfl⟩
      exact first
    · exact fun first => ⟨index, token, first, rfl, rfl⟩
  rw [← reported, parse]
  cases readTokens 0 (tokens s) with
  | error e => simp only [Except.error.injEq]
  | ok ws => cases ws <;> simp only [Except.error.injEq, reduceCtorEq]

theorem parse_eq_empty_iff {s : List Char} :
    parse s = .error .empty ↔ ∀ body ∈ tokens s, body = [] := by
  rw [← denote_nil_iff, ← readTokens_eq_ok_iff 0, parse]
  cases read : readTokens 0 (tokens s) with
  | error e =>
    obtain ⟨i, token, -, rfl⟩ := readTokens_eq_error_iff.mp read
    simp only [Except.error.injEq, reduceCtorEq]
  | ok ws =>
    cases ws with
    | nil => exact iff_of_true rfl rfl
    | cons w ws => simp only [Except.ok.injEq, reduceCtorEq]

theorem parse_eq_ok_iff {s : List Char} {p : Program} :
    parse s = .ok p ↔ p.words ≠ #[] ∧ Denote (tokens s) p.words.toList := by
  rw [← readTokens_eq_ok_iff 0]
  constructor
  · intro parsed
    refine ⟨fun empty => words_of_parse parsed (Array.toList_eq_nil_iff.mpr empty), ?_⟩
    rw [parse] at parsed
    split at parsed
    · cases parsed
    · cases parsed
    · rename_i ws _ read
      obtain rfl := Except.ok.inj parsed
      exact read
  · rintro ⟨some, read⟩
    exact parse_eq_ok (fun empty => some (Array.toList_eq_nil_iff.mp empty)) read

/-- Every text is read for what it is: a text of which the first unreadable token is reported, a
text without a word, or a listing of the words that its tokens denote. -/
theorem parsing_is_exact (s : List Char) :
    ∃ bodies, (∀ bs, List.Forall₂ Text.Trims (s.splitOn ',') bs ↔ bs = bodies) ∧
      (∀ index token, parse s = .error (.invalidWord token index) ↔
        FirstUnreadable bodies index token) ∧
      (parse s = .error .empty ↔ ∀ body ∈ bodies, body = []) ∧
      ∀ p, parse s = .ok p ↔ p.words ≠ #[] ∧ Denote bodies p.words.toList :=
  ⟨tokens s, fun _ => trims_tokens_iff, fun _ _ => parse_eq_invalid_iff, parse_eq_empty_iff,
    fun _ => parse_eq_ok_iff⟩

/-- A blank token keeps its place, and the first of two unreadable tokens is reported. -/
example : parse "1, ,9223372036854775808,x".toList =
    .error (.invalidWord "9223372036854775808".toList 2) := by rfl

end Intcode.Program
