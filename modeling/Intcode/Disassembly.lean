import Intcode.Instruction
import Intcode.Text.Align

/-!
# Disassembly

A memory image mixes code and data, so it is walked from its first word to its last: a word that
decodes, with valid modes and all its parameters inside the image, is shown as an instruction with
its operands, any other as a word of data. The lines tile the image.
-/

namespace Intcode.Disassembly

inductive Line where
  | instruction (opcode : Opcode) (operands : List (Mode × Word))
  | data (word : Word)
  deriving DecidableEq, Repr

/-- How a parameter word is written in its mode: `[a]`, `#v`, `rb+o` or `rb-o`. -/
def operandText (mode : Mode) (raw : Word) : String :=
  match mode with
  | .position => s!"[{raw.text}]"
  | .immediate => s!"#{raw.text}"
  | .relative =>
    if raw.toInt < 0 then s!"rb-{raw.toInt.natAbs}" else s!"rb+{raw.toInt.natAbs}"

namespace Line

def width : Line → Nat
  | instruction opcode _ => opcode.width
  | data _ => 1

def text : Line → String
  | instruction opcode [] => opcode.mnemonic
  | instruction opcode operands =>
    let shown := operands.map fun o => operandText o.1 o.2
    Text.alignLeft 4 opcode.mnemonic ++ " " ++ ", ".intercalate shown
  | data w => "DATA " ++ w.text

theorem width_pos (l : Line) : 0 < l.width := by
  cases l with
  | instruction opcode _ => exact opcode.width_pos
  | data _ => exact Nat.one_pos

end Line

/-- The modes and words of the first `count` parameters, if every mode is valid. -/
def operands (words : Array Word) (a : Nat) (i : Instruction) :
    Nat → Except DecodeError (List (Mode × Word))
  | 0 => .ok []
  | count + 1 => do
    let before ← operands words a i count
    let mode ← i.mode (count + 1)
    return before ++ [(mode, words.getD (a + count + 1) 0)]

/-- The line that starts at an address. Past the end it is a zero word. -/
def lineAt (words : Array Word) (a : Nat) : Line :=
  let w := words.getD a 0
  match Instruction.decode w with
  | .error _ => .data w
  | .ok i =>
    if a + i.opcode.width ≤ words.size then
      match operands words a i i.opcode.arity with
      | .ok shown => .instruction i.opcode shown
      | .error _ => .data w
    else .data w

def linesFrom (words : Array Word) (a : Nat) : List (Nat × Line) :=
  if a < words.size then
    (a, lineAt words a) :: linesFrom words (a + (lineAt words a).width)
  else []
  termination_by words.size - a
  decreasing_by
    have := (lineAt words a).width_pos
    omega

def lines (words : Array Word) : List (Nat × Line) := linesFrom words 0

/-- The address in a field of five, a colon and the text of the line. -/
def numbered (a : Nat) (l : Line) : String := Text.alignRight 5 (toString a) ++ ": " ++ l.text

/-- The text of a whole image, every line ended. -/
def text (words : Array Word) : String :=
  String.join ((lines words).map fun l => numbered l.1 l.2 ++ "\n")

example : lineAt #[1002, 4, 3, 4, 33] 0 =
    .instruction .mul [(.position, 4), (.immediate, 3), (.position, 4)] := by decide
example : lineAt #[1, 0, 0] 0 = .data 1 ∧ lineAt #[304, 1] 0 = .data 304 := by decide
example : (Line.instruction .output [(.relative, -3)]).text = "OUT  rb-3" := by decide +kernel

end Intcode.Disassembly
