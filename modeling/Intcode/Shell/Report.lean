import Intcode.Disassembly
import Intcode.Fault

/-!
# Reports of the shell

What the shell has to say about a command that it carried out, and how that is written. An empty
text, as that of a dump without words, is not printed at all.
-/

namespace Intcode.Shell

inductive Report where
  | history (lines : List (List Char))
  | program (words : Array Word)
  | registers (ip base : Word) (halted : Bool)
  /-- The output of a run, and the address behind its halt. -/
  | ran (output : List Word) (ip : Word)
  | runFailed (output : List Word) (f : Fault)
  /-- An executed instruction and the output so far that has not been shown yet. -/
  | stepped (a : Nat) (line : Disassembly.Line) (shown : List Word) (halted : Bool)
  | stepFailed (a : Nat) (line : Disassembly.Line) (f : Fault)
  | alreadyHalted
  | queued (count : Nat)
  | dump (a : Nat) (words : List Word)
  | loaded (count : Nat)
  deriving DecidableEq, Repr

/-- The words in rows of eight, each with the address of its first word. -/
def rows (a : Nat) (words : List Word) : List (Nat × List Word) :=
  if words.isEmpty then [] else (a, words.take 8) :: rows (a + 8) (words.drop 8)
  termination_by words.length
  decreasing_by
    rename_i h
    have := List.length_pos_iff.mpr fun e => h (List.isEmpty_iff.mpr e)
    simp only [List.length_drop]
    omega

/-- A row: the address in a field of five and the words in fields of six. -/
def rowText (a : Nat) (words : List Word) : String :=
  Text.alignRight 5 (toString a) ++ ": " ++
    " ".intercalate (words.map fun w => Text.alignRight 6 w.text)

def outputText (output : List Word) : String :=
  "output: [" ++ ",".intercalate (output.map Word.text) ++ "]"

namespace Report

def text : Report → String
  | history lines => "\n".intercalate (lines.map String.ofList)
  | program words => Disassembly.text words
  | registers ip base halted =>
    s!"instruction pointer:{ip.text}\nrelative base:{base.text}\nhalted:{halted}"
  | ran output ip => outputText output ++ "\nhalted at " ++ ip.text
  | runFailed output f => outputText output ++ "\nerror: " ++ f.message
  | stepped a line shown halted =>
    Disassembly.numbered a line ++ String.join (shown.map fun w => "\n-> " ++ w.text) ++
      (if halted then "\nhalted" else "")
  | stepFailed a line f => Disassembly.numbered a line ++ "\nerror: " ++ f.message
  | alreadyHalted => "machine halted; reload the program to start over"
  | queued count => s!"{count} values queued"
  | dump a words => "\n".intercalate ((rows a words).map fun r => rowText r.1 r.2)
  | loaded count => s!"loaded {count} words"

end Report

end Intcode.Shell
