import Intcode.Program

/-!
# Commands of the shell

A line that starts with a dot names a command, and what follows the name are words between commas
or blanks. Any other line is a listing. Reading a line needs nothing but the line, so a line that
cannot be read is rejected before anything is done.
-/

namespace Intcode.Shell

inductive Command where
  | quit
  | history
  /-- Show the memory as instructions. -/
  | program
  | registers
  /-- Run the loaded program on inputs, on a machine of its own. -/
  | run (inputs : List Word)
  | step
  /-- Queue values for the input instructions to come. -/
  | input (values : List Word)
  /-- Show the memory as words, between bounds. -/
  | memory (bounds : List Word)
  | load (p : Program)
  deriving DecidableEq, Repr

inductive Rejection where
  | unknownCommand (name : List Char)
  | invalidValue (token : List Char) (flaw : Numeral.Flaw)
  | invalidListing (e : ListingError)
  deriving DecidableEq, Repr

def Rejection.message : Rejection → String
  | unknownCommand name => s!"Unknown command {String.ofList name}"
  | invalidValue token flaw => s!"Invalid value {Text.quoted token}: {flaw.message}"
  | invalidListing e => "Invalid input\n" ++ e.message

def isSeparator (c : Char) : Bool := c == ',' || Text.isBlank c

/-- Reads arguments up to the first that is no word. -/
def readTokens : List (List Char) → Except Rejection (List Word)
  | [] => .ok []
  | token :: rest =>
    match Numeral.readWord token with
    | .error flaw => .error (.invalidValue token flaw)
    | .ok w => (readTokens rest).map (w :: ·)

def readWords (args : List Char) : Except Rejection (List Word) :=
  readTokens ((Text.pieces isSeparator args).filter (!·.isEmpty))

/-- Reads a line that is not blank and has no blanks at its ends. -/
def Command.parse (line : List Char) : Except Rejection Command :=
  let (name, args) := Text.firstField line
  match String.ofList name with
  | ".quit" => .ok .quit
  | ".history" => .ok .history
  | ".program" | ".prog" => .ok .program
  | ".registers" | ".regs" => .ok .registers
  | ".run" => (readWords args).map .run
  | ".step" => .ok .step
  | ".input" | ".in" => (readWords args).map .input
  | ".mem" => (readWords args).map .memory
  | _ =>
    if name.head? = some '.' then .error (.unknownCommand name)
    else ((Program.parse line).map .load).mapError .invalidListing

example : Command.parse ".in 1,,-2\t+3".toList = .ok (.input [1, -2, 3]) := by rfl
example : Command.parse ".5,3".toList = .error (.unknownCommand ".5,3".toList) := by rfl
example : Command.parse "1,x".toList = .error (.invalidListing (.invalidWord ['x'] 1)) := by rfl

end Intcode.Shell
