import Intcode.Text.Extending
import Intcode.Text.Unprintable

/-!
# Quoted text

A text between double quotes, in which every character that would not show as itself is escaped:
`\0`, `\t`, `\n`, `\r`, `\"` and `\\` by name, unprintable and extending characters by their code
point in hexadecimal. The single quote stands for itself.
-/

namespace Intcode.Text

/-- The escape by code point, in lower case and without padding. -/
def escapeCode (c : Char) : List Char :=
  '\\' :: 'u' :: '\x7b' :: (Nat.toDigits 16 c.toNat ++ ['\x7d'])

def escape (c : Char) : List Char :=
  match c with
  | '\x00' => ['\\', '0']
  | '\t' => ['\\', 't']
  | '\n' => ['\\', 'n']
  | '\r' => ['\\', 'r']
  | '"' => ['\\', '"']
  | '\\' => ['\\', '\\']
  | c => if isExtending c || isUnprintable c then escapeCode c else [c]

def quoted (s : List Char) : String := String.ofList ('"' :: (s.flatMap escape ++ ['"']))

example : quoted "a\"\\'\t".toList = "\"a\\\"\\\\'\\t\"" := by decide +kernel
example : quoted "\u0301\u200b".toList = "\"\\u\x7b301\x7d\\u\x7b200b\x7d\"" := by decide +kernel

end Intcode.Text
