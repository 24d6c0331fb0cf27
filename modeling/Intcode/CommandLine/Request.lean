import Intcode.Hull
import Intcode.Settings

/-!
# Requests

What a command line can ask for. Its first plain argument is a verb, which says what to do with the
program in a file; options before the verb and behind it say how. `UsageError` lists the reasons
for which a command line is not carried out.
-/

namespace Intcode.CommandLine

inductive Verb where
  | run
  | disasm
  | amplify
  | paint
  | arcade
  | ascii
  | droid
  deriving DecidableEq, Repr

namespace Verb

def all : List Verb := [run, disasm, amplify, paint, arcade, ascii, droid]

def name : Verb → String
  | run => "run"
  | disasm => "disasm"
  | amplify => "amplify"
  | paint => "paint"
  | arcade => "arcade"
  | ascii => "ascii"
  | droid => "droid"

def ofName? (s : List Char) : Option Verb := all.find? fun v => v.name.toList == s

end Verb

/-- What takes a value: an option, or the place of the file. -/
inductive Slot where
  | interval
  | input
  | start
  | quarters
  | file
  deriving DecidableEq, Repr

inductive Switch where
  | debug
  | feedback
  | help
  | version
  deriving DecidableEq, Repr

def Slot.name : Slot → String
  | interval => "--poll-ms"
  | input => "--input"
  | start => "--start"
  | quarters => "--quarters"
  | file => "<FILE>"

def Switch.name : Switch → String
  | debug => "--debug"
  | feedback => "--feedback"
  | help => "--help"
  | version => "--version"

/-- Why a command line is not carried out. -/
inductive UsageError where
  /-- Help was asked for. -/
  | help
  /-- The version was asked for. -/
  | version
  | nothingGiven
  | missingVerb
  | unknownVerb (name : List Char)
  | unknownArgument (argument : List Char)
  | missingFile
  | missingValue (slot : Slot)
  /-- A value for an option that takes none. -/
  | unneededValue (switch : Switch)
  /-- A value that is none of those listed for the option. -/
  | unlistedValue (slot : Slot) (value : List Char)
  /-- A value that is no numeral of the option's range. -/
  | unreadableValue (slot : Slot) (value : List Char)
  /-- An option that can be given once only. -/
  | repeated (option : String)
  deriving DecidableEq, Repr

def UsageError.message : UsageError → String
  | help => "help requested"
  | version => "version requested"
  | nothingGiven => "nothing to do"
  | missingVerb => "a command is missing"
  | unknownVerb name => s!"unknown command {Text.quoted name}"
  | unknownArgument argument => s!"unexpected argument {Text.quoted argument}"
  | missingFile => s!"the argument {Slot.file.name} is missing"
  | missingValue slot => s!"a value is missing for {slot.name}"
  | unneededValue switch => s!"{switch.name} takes no value"
  | unlistedValue slot value => s!"{Text.quoted value} is no possible value for {slot.name}"
  | unreadableValue slot value => s!"invalid value {Text.quoted value} for {slot.name}"
  | repeated option => s!"{option} can be given once only"

inductive Task where
  | run (inputs : List Word)
  | disasm
  | amplify (feedback : Bool)
  | paint (start : Hull.Color)
  | arcade (quarters : Option Word)
  | ascii
  | droid
  deriving DecidableEq, Repr

structure Request where
  task : Task
  file : List Char
  debug : Bool
  /-- The poll interval of relays, in milliseconds. -/
  interval : Option Nat
  deriving DecidableEq, Repr

/-- The settings that a request makes of some others. An interval of zero changes nothing. -/
def Request.settings (r : Request) (s : Settings) : Settings :=
  { debug := s.debug || r.debug
    interval := (r.interval.filter (0 < ·)).getD s.interval }

end Intcode.CommandLine
