import Intcode.CommandLine.Arguments
import Intcode.CommandLine.Execution

/-!
# The command line program

Hands the arguments, the environment and the file to the library and prints what it says.
-/

namespace Intcode.CommandLine

def version : String := "intcode 0.2.0"

def help : String :=
  "Usage: intcode [OPTIONS] <COMMAND> <FILE>\n\n" ++
  "Commands:\n" ++
  "  run      [-i, --input <VALUES>]   run a program and print its output\n" ++
  "  disasm                            print a program as instructions\n" ++
  "  amplify  [--feedback]             search phase settings for the strongest signal\n" ++
  "  paint    [--start <black|white>]  run a hull painting robot and draw the hull\n" ++
  "  arcade   [--quarters <VALUE>]     play an arcade game to completion\n" ++
  "  ascii                             show what a camera sees\n" ++
  "  droid                             map the area around a repair droid\n\n" ++
  "Options:\n" ++
  "  --debug           trace every executed instruction\n" ++
  "  --poll-ms <MS>    poll interval of relays in milliseconds\n" ++
  "  -h, --help        print help\n" ++
  "  -V, --version     print version"

/-- The number of an error of the system, which comes with or without a minus sign. -/
def errorNumber (code : UInt32) : UInt32 := min code (0 - code)

def fileError : IO.Error → FileError
  | .noFileOrDirectory .. => .notFound
  | e@(.inappropriateType _ code _) | e@(.invalidArgument _ code _) =>
    match errorNumber code with
    | 20 => .notDirectory
    | 21 => .isDirectory
    | 36 => .nameTooLong
    | _ => .unreadable (toString e)
  | e => .unreadable (toString e)

def readFile (path : String) : IO (Except FileError ByteArray) := do
  try
    return .ok (← IO.FS.readBinFile path)
  catch e =>
    return .error (fileError e)

def readSettings : IO Settings := do
  let debug ← IO.getEnv Settings.debugName
  let interval ← IO.getEnv Settings.intervalName
  let lookup (name : String) : Option (List Char) :=
    if name == Settings.debugName then debug.map String.toList
    else if name == Settings.intervalName then interval.map String.toList
    else none
  let (settings, warnings) := Settings.ofLookup lookup
  for w in warnings do
    IO.eprintln w.message
  return settings

def printReport (r : Request) : IO UInt32 := do
  let settings ← readSettings
  let content ← readFile (String.ofList r.file)
  let (result, traces) := execute 0x1000000000000000 r settings content
  for (_, records) in traces do
    for record in records do
      IO.eprintln record.text
  match result with
  | .ok report =>
    IO.println report.text
    return 0
  | .error e =>
    IO.eprintln s!"Error: {e.message}"
    return 1

end Intcode.CommandLine

open Intcode.CommandLine in
def main (arguments : List String) : IO UInt32 := do
  match parse (arguments.map String.toList) with
  | .ok request => printReport request
  | .error .help =>
    IO.println help
    return 0
  | .error .version =>
    IO.println version
    return 0
  | .error .nothingGiven =>
    IO.eprintln help
    return 2
  | .error e =>
    IO.eprintln s!"error: {e.message}"
    return 2
