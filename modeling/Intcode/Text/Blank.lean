/-!
# Blanks

The characters with the Unicode property White_Space, and the two things that are done with them:
trimming a text and cutting off its first field.
-/

namespace Intcode.Text

/-- The 25 characters of White_Space. -/
def isBlank (c : Char) : Bool :=
  let n := c.toNat
  (0x09 ≤ n && n ≤ 0x0D) || n == 0x20 || n == 0x85 || n == 0xA0 || n == 0x1680 ||
  (0x2000 ≤ n && n ≤ 0x200A) || n == 0x2028 || n == 0x2029 || n == 0x202F || n == 0x205F ||
  n == 0x3000

def trimStart (s : List Char) : List Char := s.dropWhile isBlank

def trimEnd (s : List Char) : List Char := (s.reverse.dropWhile isBlank).reverse

def trim (s : List Char) : List Char := trimEnd (trimStart s)

/-- The pieces between the characters that `cut` selects. There is always one more piece than
there are cuts. -/
def pieces (cut : Char → Bool) : List Char → List (List Char)
  | [] => [[]]
  | c :: rest =>
    if cut c then [] :: pieces cut rest
    else match pieces cut rest with
      | [] => [[c]]
      | piece :: more => (c :: piece) :: more

/-- What stands before the first blank, and what stands after it. -/
def firstField (s : List Char) : List Char × List Char :=
  (s.takeWhile (!isBlank ·), (s.dropWhile (!isBlank ·)).drop 1)

theorem pieces_ne_nil (cut : Char → Bool) (s : List Char) : pieces cut s ≠ [] := by
  cases s with
  | nil => simp [pieces]
  | cons c rest =>
    unfold pieces
    split
    · simp
    · split <;> simp

example : pieces (· == ',') "1,,2".toList = ["1".toList, [], "2".toList] := by decide
example : trim "\u3000 a b\t".toList = "a b".toList := by decide
example : firstField ".mem 1 2".toList = (".mem".toList, "1 2".toList) := by decide

end Intcode.Text
