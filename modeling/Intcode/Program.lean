import Intcode.Text.Blank
import Intcode.Text.Numeral
import Intcode.Text.Quoted

/-!
# Program listings

A listing is a text of words between commas. Blanks around a word do not count, nor do tokens that
hold nothing but blanks; they keep their place in the count of tokens, which is how an invalid word
is reported.
-/

namespace Intcode

structure Program where
  words : Array Word
  deriving DecidableEq, Repr

inductive ListingError where
  | invalidWord (token : List Char) (index : Nat)
  | empty
  deriving DecidableEq, Repr

def ListingError.message : ListingError → String
  | invalidWord token index => s!"invalid word {Text.quoted token} at index {index}"
  | empty => "program listing is empty"

namespace Program

/-- The tokens of a text, blanks at their ends removed. -/
def tokens (s : List Char) : List (List Char) := (Text.pieces (· == ',') s).map Text.trim

/-- The words of the tokens that are not empty. The first token has the given index. -/
def readTokens : Nat → List (List Char) → Except ListingError (List Word)
  | _, [] => .ok []
  | index, token :: rest =>
    if token.isEmpty then readTokens (index + 1) rest
    else
      match Numeral.readWord token with
      | .error _ => .error (.invalidWord token index)
      | .ok w =>
        match readTokens (index + 1) rest with
        | .error e => .error e
        | .ok ws => .ok (w :: ws)

/-- Reads a listing, which holds at least one word. -/
def parse (s : List Char) : Except ListingError Program :=
  match readTokens 0 (tokens s) with
  | .error e => .error e
  | .ok [] => .error .empty
  | .ok ws => .ok { words := ws.toArray }

/-- The words in order, with commas between them. -/
def text (p : Program) : String := ",".intercalate (p.words.toList.map Word.text)

/-- The program with one word replaced, after zeros have been added as far as needed. -/
def patch (p : Program) (a : Nat) (w : Word) : Program :=
  let words := p.words ++ Array.replicate (a + 1 - p.words.size) 0
  { words := words.setIfInBounds a w }

example : parse "".toList = .error .empty := by rfl
example : parse " 1,,\t-7\n".toList = .ok ⟨#[1, -7]⟩ := by rfl
example : parse "1, ,+".toList = .error (.invalidWord ['+'] 2) := by rfl
example : patch ⟨#[1, 2]⟩ 3 9 = ⟨#[1, 2, 0, 9]⟩ := by decide

end Program

end Intcode
