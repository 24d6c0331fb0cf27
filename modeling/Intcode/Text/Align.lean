/-!
# Aligned text

A field of at least a given width, filled up with spaces on one side; a longer text is kept whole.
-/

namespace Intcode.Text

def alignRight (width : Nat) (s : String) : String :=
  "".pushn ' ' (width - s.length) ++ s

def alignLeft (width : Nat) (s : String) : String :=
  s ++ "".pushn ' ' (width - s.length)

example : alignRight 5 "12" = "   12" ∧ alignRight 1 "12" = "12" := by decide
example : alignLeft 4 "JZ" = "JZ  " := by decide

end Intcode.Text
