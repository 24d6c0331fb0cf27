import Intcode.Proofs.Text.Blank
import Intcode.Proofs.Text.Numeral
import Intcode.Shell.Session
import Mathlib.Data.List.Forall2

/-!
# Lines of the shell

What a line asks for, and how a session answers one that asks for something. The words behind the
name of a command are read exactly if each piece between separators that is not empty is a numeral.
So there is a line for any words to run on or to queue. Of the reports only those whose text is
nothing but what they show can come out empty, and so go unprinted.
-/

namespace Intcode

namespace Shell

theorem readTokens_eq_ok_iff {tokens : List (List Char)} {ws : List Word} :
    readTokens tokens = .ok ws ↔
      List.Forall₂ (fun token w => Numeral.Denotes token w.toInt) tokens ws := by
  induction tokens generalizing ws with
  | nil => simp [readTokens, eq_comm]
  | cons token tokens ih =>
    have head (w : Word) := Numeral.readWord_eq_ok_iff (s := token) (w := w)
    simp only [List.forall₂_cons_left_iff, ← ih, ← head, readTokens]
    cases Numeral.readWord token with
    | error flaw => simp
    | ok w =>
      cases readTokens tokens with
      | error e => simp [Except.map]
      | ok rest => simp [Except.map, eq_comm]

/-- Words are read exactly if every piece that is not empty is a numeral. -/
theorem readWords_eq_ok_iff {args : List Char} {ws : List Word} :
    readWords args = .ok ws ↔ List.Forall₂ (fun token w => Numeral.Denotes token w.toInt)
      ((Text.pieces isSeparator args).filter (!·.isEmpty)) ws :=
  readTokens_eq_ok_iff

theorem isSeparator_of_numeral {token : List Char} {n : Int} (denotes : Numeral.Denotes token n)
    {c : Char} (mem : c ∈ token) : isSeparator c = false ∧ Text.isBlank c = false := by
  rcases denotes.mem mem with digit | rfl | rfl
  · have clear := Text.not_isBlank_of_isDigit digit
    refine ⟨?_, clear⟩
    rw [isSeparator, clear, Bool.or_false, beq_eq_false_iff_ne]
    rintro rfl
    cases digit
  · decide
  · decide

/-- The name of a command and words behind it, each after a blank. -/
def written (name : List Char) (ws : List Word) : List Char :=
  name ++ (ws.map fun w => w.text.toList).flatMap (' ' :: ·)

theorem denotes_texts (ws : List Word) :
    List.Forall₂ (fun token w => Numeral.Denotes token w.toInt) (ws.map fun w => w.text.toList)
      ws := by
  rw [List.forall₂_map_left_iff, List.forall₂_same]
  exact fun w _ => (Numeral.spells_text w).denotes

/-- The words behind a name are read back. -/
theorem readWords_texts (ws : List Word) :
    readWords (((ws.map fun w => w.text.toList).flatMap (' ' :: ·)).drop 1) = .ok ws := by
  rw [readWords_eq_ok_iff]
  have whole : ∀ token ∈ ws.map fun w => w.text.toList, ∀ c ∈ token, isSeparator c = false := by
    intro token mem c inside
    obtain ⟨w, -, rfl⟩ := List.mem_map.mp mem
    exact (isSeparator_of_numeral (Numeral.spells_text w).denotes inside).1
  have some : ∀ token ∈ ws.map fun w => w.text.toList, (!token.isEmpty) = true := by
    intro token mem
    obtain ⟨w, -, rfl⟩ := List.mem_map.mp mem
    rw [List.isEmpty_eq_false_iff.mpr (Numeral.spells_text w).denotes.ne_nil]
    rfl
  have cut := Text.pieces_flatMap (c := ' ') (by decide) whole
  cases ws with
  | nil => exact .nil
  | cons w ws =>
    rw [List.map_cons] at some
    rw [List.map_cons, List.flatMap_cons, List.cons_append,
      Text.pieces_cons_of_cut (by decide)] at cut
    rw [List.map_cons, List.flatMap_cons, List.cons_append, List.drop_one, List.tail_cons,
      (List.cons.inj cut).2, List.filter_eq_self.mpr some]
    exact denotes_texts (w :: ws)

theorem last_of_written {name : List Char} (clear : ∀ c ∈ name, Text.isBlank c = false)
    (ws : List Word) : ∀ c ∈ (written name ws).getLast?, Text.isBlank c = false := by
  intro c last
  rcases List.eq_nil_or_concat ws with rfl | ⟨ws, w, rfl⟩
  · rw [written, List.map_nil, List.flatMap_nil, List.append_nil] at last
    exact clear c (List.mem_of_getLast? last)
  · have numeral := (Numeral.spells_text w).denotes
    have inside : c ∈ w.text.toList := by
      rw [written, List.concat_eq_append, List.map_append, List.flatMap_append, List.map_singleton,
        List.flatMap_singleton, ← List.append_assoc, ← List.singleton_append, ← List.append_assoc,
        List.getLast?_append_of_ne_nil _ numeral.ne_nil] at last
      exact List.mem_of_getLast? last
    exact (isSeparator_of_numeral numeral inside).2

/-- The name and the words are found in such a line. -/
theorem firstField_written {name : List Char} (some : name ≠ [])
    (whole : name.any Text.isBlank = false) (ws : List Word) :
    Text.firstField (Text.trim (written name ws)) =
      (name, ((ws.map fun w => w.text.toList).flatMap (' ' :: ·)).drop 1) := by
  have clear : ∀ c ∈ name, Text.isBlank c = false := fun c mem =>
    Bool.eq_false_iff.mpr (List.any_eq_false.mp whole c mem)
  have first : ∀ c ∈ (written name ws).head?, Text.isBlank c = false := by
    intro c head
    rw [written, List.head?_append_of_ne_nil _ some] at head
    exact clear c (List.mem_of_head? head)
  rw [Text.trim_of_ends first (last_of_written clear ws)]
  refine Text.firstField_append clear fun c head => ?_
  cases ws with
  | nil => cases head
  | cons w ws =>
    obtain rfl : ' ' = c := Option.some.inj head
    rfl

def Asks (raw : List Char) (c : Command) : Prop := Command.parse (Text.trim raw) = .ok c

/-- Any words can be queued. -/
theorem asks_input (ws : List Word) : Asks (written ".in".toList ws) (.input ws) := by
  rw [Asks, Command.parse, firstField_written (by decide) rfl]
  exact congrArg (Except.map Command.input) (readWords_texts ws)

/-- The program can be run on any words. -/
theorem asks_run (ws : List Word) : Asks (written ".run".toList ws) (.run ws) := by
  rw [Asks, Command.parse, firstField_written (by decide) rfl]
  exact congrArg (Except.map Command.run) (readWords_texts ws)

/-- The reports whose text is more than what they show. -/
def Report.Worded : Report → Prop
  | .history _ | .program _ | .dump .. => False
  | .registers .. | .ran .. | .runFailed .. | .stepped .. | .stepFailed .. | .alreadyHalted
  | .queued _ | .loaded _ => True

theorem append_ne_empty_left {a : String} (some : a ≠ "") (b : String) : a ++ b ≠ "" :=
  fun empty => some (String.append_eq_empty_iff.mp empty).1

theorem append_ne_empty_right {b : String} (some : b ≠ "") (a : String) : a ++ b ≠ "" :=
  fun empty => some (String.append_eq_empty_iff.mp empty).2

theorem numbered_ne_empty (a : Nat) (l : Disassembly.Line) : Disassembly.numbered a l ≠ "" :=
  append_ne_empty_left (append_ne_empty_right (by decide) _) _

theorem outputText_ne_empty (output : List Word) : outputText output ≠ "" :=
  append_ne_empty_right (by decide) _

theorem Report.text_ne_empty {r : Report} (worded : r.Worded) : r.text ≠ "" := by
  cases r with
  | history lines => cases worded
  | program words => cases worded
  | dump a words => cases worded
  | registers ip base halted =>
    have heading : "instruction pointer:" ++ ip.text ≠ "" :=
      append_ne_empty_left (by decide) _
    have two := append_ne_empty_left (append_ne_empty_left heading "\nrelative base:") base.text
    exact append_ne_empty_left (append_ne_empty_left two "\nhalted:") (toString halted)
  | ran output ip =>
    exact append_ne_empty_left (append_ne_empty_left (outputText_ne_empty output) _) _
  | runFailed output f =>
    exact append_ne_empty_left (append_ne_empty_left (outputText_ne_empty output) _) _
  | stepped a line shown halted =>
    exact append_ne_empty_left (append_ne_empty_left (numbered_ne_empty a line) _) _
  | stepFailed a line f =>
    exact append_ne_empty_left (append_ne_empty_left (numbered_ne_empty a line) _) _
  | alreadyHalted =>
    show "machine halted; reload the program to start over" ≠ ""
    decide
  | queued count =>
    show toString count ++ " values queued" ≠ ""
    exact append_ne_empty_right (by decide) _
  | loaded count =>
    have heading : "loaded " ++ toString count ≠ "" := append_ne_empty_left (by decide) _
    exact append_ne_empty_left heading " words"

/-- Such a report is printed. -/
theorem Reply.ofReport_of_worded (r : Report) (worded : r.Worded) : ofReport r = print r := by
  refine if_neg fun empty => Report.text_ne_empty worded ?_
  exact String.isEmpty_iff.mp empty

namespace Session

variable {fuel : Nat} {s : Session} {raw : List Char} {c : Command}

/-- A line that asks for something else than to quit is noted, and what it asks for carried out. -/
theorem eval_of_asks (asks : Asks raw c) (stays : c ≠ .quit) :
    (s.eval fuel raw).reply = (s.execute fuel c).reply ∧
      (s.eval fuel raw).session = (s.execute fuel c).session.note (Text.trim raw) := by
  have some : (Text.trim raw).isEmpty = false := by
    rw [List.isEmpty_eq_false_iff]
    intro empty
    rw [Asks, empty] at asks
    cases asks
  rw [eval, some, asks]
  cases c with
  | quit => exact absurd rfl stays
  | _ => exact ⟨rfl, rfl⟩

theorem evalAll_of_asks (asks : Asks raw c) (stays : c ≠ .quit) (rest : List (List Char)) :
    s.evalAll fuel (raw :: rest) = (s.execute fuel c).reply ::
      ((s.execute fuel c).session.note (Text.trim raw)).evalAll fuel rest := by
  obtain ⟨reply, session⟩ := eval_of_asks asks stays
  rw [evalAll, reply, session]

end Session

end Shell

end Intcode
